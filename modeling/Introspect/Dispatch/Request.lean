import Introspect.World.Basic
/-!
Requests that dispatch may reach declared code for. Each kind has a handler of its own, which is
given the means to ask for more; no handler calls another.
-/
namespace Introspect

/-- A running declared function: its receiver, its arguments, and which function it is. -/
structure Frame where
  receiver : Option Ref
  args : List Ref
  keywords : List (String × Ref)
  function : Nat

inductive Request where
  | call (f : Ref) (args : List Ref) (keywords : List (String × Ref))
  | eval (frame : Frame) (e : Expr Ref)
  | attribute (r : Ref) (name : String)
  | text (r : Ref)
  /-- The containers that are being displayed already are shown by dots. -/
  | display (active : List Ref) (r : Ref)
  | integer (r : Ref)
  | real (r : Ref)
  | truth (r : Ref)
  | equal (a b : Ref)

abbrev Ask := Request → Act Ref

namespace Ask

variable (ask : Ask)

def content (r : Ref) : Act String := do
  match (← get).body r with
  | .atom (.text s) => return s
  | _ => throw .typeError

def textOf (r : Ref) : Act String := do content (← ask (.text r))

def displayOf (active : List Ref) (r : Ref) : Act String := do
  content (← ask (.display active r))

def isTrue (r : Ref) : Act Bool := do
  match ← ask (.truth r) with
  | .atom (.bool b) => return b
  | _ => throw .typeError

/-- The same object, or equal by dispatch. -/
def areEqual (a b : Ref) : Act Bool :=
  if a = b then return true else do isTrue ask (← ask (.equal a b))

def attribute? (r : Ref) (name : String) : Act (Option Ref) :=
  tryCatch (do return some (← ask (.attribute r name))) fun
    | .host .attributeError _ => return none
    | fault => throw fault

end Ask

end Introspect
