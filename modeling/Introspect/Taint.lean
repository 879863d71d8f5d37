import Introspect.Conversion
/-! Taint of boxes, of tainted texts, and of objects that convert to them. -/
namespace Introspect.Taint

/-- Whether a value is tainted; an object that converts is so if what it converts to is. -/
def isTaintedWithin : Nat → Ref → Act Bool
  | 0, _ => throw .nesting
  | depth + 1, r => do
    let w ← get
    match w.body r with
    | .box _ tainted => return tainted
    | _ =>
      if w.isInstance r .taintedStr then return true
      if !(← Conversion.isOverloaded r) then return false
      isTaintedWithin depth (← Conversion.value r)

def isTainted (r : Ref) : Act Bool := do isTaintedWithin (← get).nesting r

/-- Sets the flag of a box, and tells so if that changes it. -/
def mark (r value : Ref) (before after : Bool) (message : String) : Act Unit := do
  if before ≠ after then
    match r with
    | .cell address => Act.modifyCell address ({ · with body := .box value after })
    | _ => pure ()
    Log.debug Dispatch.ask (return message ++ Dispatch.identity)

/-- Marks a value as tainted. Only a box can change; what is tainted already stays so. -/
def taint (r : Ref) : Act Unit := do
  let w ← get
  match w.body r with
  | .box value tainted => mark r value tainted true "Tainted scalar "
  | _ =>
    if w.isInstance r .taintedStr then return
    if ← Conversion.isOverloaded r then
      if ← isTainted r then return
      throw .cannotTaintConverted
    if w.isPlain r then throw (.cannotTaintPlain (w.info (w.classOf r)).name)
    throw .cannotTaint

/-- Clears the taint of a value. Only a box can change; what is tainted otherwise stays so. -/
def untaint (r : Ref) : Act Unit := do
  let w ← get
  match w.body r with
  | .box value tainted => mark r value tainted false "Untainted scalar "
  | _ =>
    if w.isInstance r .taintedStr then throw .cannotUntaintText
    if ← Conversion.isOverloaded r then
      if ← isTainted r then throw .cannotUntaintConverted

end Introspect.Taint
