import Introspect.Reflect.Operation
import Introspect.Reflect.Overload
import Introspect.Registry.Find
/-! Operations, symbols and overloads of types, as their descriptors show them. -/
namespace Introspect.Registry

/-- Whether a type is the root of every ancestry. -/
def isRoot (id : Nat) : Act Bool := do return (← class? id) = some (.native .object)

def declared (id : Nat) : Act (List Operation) := do
  let c ← liveClass id
  return (← get).declared c

def operations (id : Nat) (withRoot justMine : Bool) : Act (List Operation) := do
  if justMine && !withRoot && (← isRoot id) then return []
  let c ← liveClass id
  if !justMine then
    let _ ← ancestry id
  return (← get).operations c withRoot justMine

/-- The operation that dispatch finds. -/
def operation? (id : Nat) (name : String) : Act (Option Operation) := do
  let _ ← ancestry id
  let c ← liveClass id
  return (← get).operation? c name

def operation (id : Nat) (name : String) : Act Operation := do
  match ← operation? id name with
  | some op => return op
  | none => throw (.unknownSlot ((← qname id) ++ "." ++ name))

def parent (op : Operation) : Act Nat := ofClass op.owner

def operationName (op : Operation) : Act String := do
  return (← qname (← parent op)) ++ "." ++ op.name

/-- Namespace keys that every class has or may have for reasons of its own. -/
def hiddenSymbols : List String :=
  ["__module__", "__dict__", "__weakref__", "__doc__", "__hash__", "__slots__"]

def symbols (id : Nat) : Act (List String) := do
  let c ← liveClass id
  let keys := ((← get).info c).entries.map (·.1)
  return (keys.filter fun key => !hiddenSymbols.contains key).mergeSort fun a b => a ≤ b

def overloads (id : Nat) : Act Overloads := do
  let c ← liveClass id
  return (← get).overloads c

/-! ## Slots by their qualified names -/

/-- The name of the type and the name of the slot, around the last dot. -/
def splitSlotName? (qname : String) : Option (String × String) :=
  match (Text.parts qname).reverse with
  | [] | [_] => none
  | last :: holders => some (".".intercalate holders.reverse, last)

def findOperation (ask : Ask) (qname : String) : Act Operation := do
  match splitSlotName? qname with
  | none => throw (.malformedSlot qname)
  | some (type, name) => operation (← find ask type) name

def findOperation? (ask : Ask) (qname : String) : Act (Option Operation) := do
  match splitSlotName? qname with
  | none => return none
  | some (type, name) =>
    match ← find? ask type with
    | none => return none
    | some id => operation? id name

end Introspect.Registry
