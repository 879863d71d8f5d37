import Introspect.Dispatch.Perform
/-! The storage shapes of references, and the fields of objects. -/
namespace Introspect

inductive RefType where
  | scalar | array | hash | set | code | cls | io
deriving DecidableEq

namespace RefType

def name : RefType → String
  | .scalar => "SCALAR"
  | .array => "ARRAY"
  | .hash => "HASH"
  | .set => "SET"
  | .code => "CODE"
  | .cls => "CLASS"
  | .io => "IO"

end RefType

namespace World

/-- Objects with an attribute dictionary are hashes, those with slots alone are arrays. -/
def objectType (w : World) (r : Ref) : RefType :=
  if (w.dictionary? r).isSome then .hash
  else if (w.slotNames (w.classOf r)).isEmpty then .scalar else .array

/-- The storage shape of a reference; plain values have none. -/
def refType? (w : World) (r : Ref) : Option RefType :=
  match w.body r with
  | .atom _ => none
  | .box .. => some .scalar
  | .cls _ => some .cls
  | .mapping _ => some .hash
  | .members _ => some .set
  | .sequence _ | .range .. | .byteArray _ => some .array
  | .stream => some .io
  | .routine _ | .bound .. | .partialCall _ | .methodWrapper => some .code
  | .error .. | .descriptor _ | .nothing => some (w.objectType r)

def intRef (i : Int) : Ref := .atom (Atom.int i)

def rangeItems (start stop step : Int) : List Ref :=
  (List.range (rangeShape start stop step).1).map fun (k : Nat) => intRef (start + k * step)

def items? (w : World) (r : Ref) : Option (List Ref) :=
  match w.body r with
  | .sequence items => some items
  | .range start stop step => some (rangeItems start stop step)
  | .byteArray b => some (b.map fun b => intRef b.toNat)
  | _ => none

/-- The namespace of a class, each entry as it is. -/
def namespaceOf (w : World) (c : ClassId) : List (String × Ref) :=
  (w.info c).entries.map fun (key, e) =>
    (key, match e with
      | .value r => r
      | .native owner (.operation ..) => .routine (.native owner key)
      | _ => .entry c key)

end World

/-- The slots that are filled, by name; a slot whose name leads nowhere is left out. -/
def slotFields (r : Ref) : List String → Act (List (String × Ref))
  | [] => return []
  | name :: rest => do
    match ← Dispatch.ask.attribute? r name with
    | some value => return (name, value) :: (← slotFields r rest)
    | none => slotFields r rest

/-- What an object stores: its filled slots, then its attribute dictionary. -/
def fields (r : Ref) : Act (List (String × Ref)) := do
  let w ← get
  let slots ← slotFields r (w.slotNames (w.classOf r))
  let w ← get
  let own := match r with
    | .cls c => w.namespaceOf c
    | _ => (w.dictionary? r).getD []
  return Pairs.putAll slots own

end Introspect
