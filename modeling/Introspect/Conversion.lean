import Introspect.Reflect.Shape
import Introspect.Reflect.Overload
/-! Objects that convert to other values, and comparison of what they convert to. -/
namespace Introspect.Conversion

open Dispatch

def overloads (r : Ref) : Act Overloads := do
  let id ← Registry.of r
  return (← get).overloads (← Registry.liveClass id)

def isOverloaded (r : Ref) : Act Bool := do
  if (← get).isPlain r then return false
  let o ← overloads r
  return o.text || o.number

/-- Calls the first number hook of a class that is not taken away. -/
def callNumberHook (r : Ref) (c : ClassId) : List String → Act Ref
  | [] => return .atom .none
  | hook :: rest => do
    match ← ask.attribute? (.cls c) hook with
    | some (.atom .none) | none => callNumberHook r c rest
    | some f => ask (.call f [r] [])

/-- The value that an object converts to, its text if it has one. The hook is called directly, so
that what it answers stays as it is. -/
def value (r : Ref) : Act Ref := do
  let o ← overloads r
  let c := (← get).classOf r
  if o.text then ask (.call (← ask (.attribute (.cls c) "__str__")) [r] [])
  else callNumberHook r c ClassInfo.numberHooks

/-! ## Comparison -/

def comparisonText (r : Ref) : Act String := do
  match (← get).atom? r with
  | some (.bytes b) => return Text.Utf8.decodeReplacing b
  | _ => ask.textOf r

def plainEqual (a b : Ref) : Act Bool := do
  let w ← get
  match w.atom? a, w.atom? b with
  | some x, some y =>
    match ← Act.liftExcept (x.compare y) with
    | .settled equal => return equal
    | .byText => return (← comparisonText a) = (← comparisonText b)
  | some .none, _ | _, some .none => return false
  | _, _ => return (← comparisonText a) = (← comparisonText b)

end Introspect.Conversion
