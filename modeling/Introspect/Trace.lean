import Introspect.Dispatch.Perform
/-! The text of an error with its causes. -/
namespace Introspect.Trace

open Dispatch

def separator : String := "\n  Caused by: "

/-- The answer of a method that takes no arguments. -/
def callMethod (r : Ref) (name : String) : Act Ref := do ask (.call (← ask (.attribute r name)) [] [])

/-- An error of the library shows its own cause below it; of any other cause only the text shows. -/
def textWithin : Nat → Ref → Act String
  | 0, _ => throw .nesting
  | depth + 1, r => do
    let text ← ask.textOf (← callMethod r "toStr")
    let w ← get
    match w.body r with
    | .error _ (.atom .none) => return text
    | .error _ cause =>
      let below ← if w.isInstance cause .obj then textWithin depth cause else ask.textOf cause
      return text ++ separator ++ below
    | _ => return text

def text (r : Ref) : Act String := do textWithin (← get).nesting r

end Introspect.Trace
