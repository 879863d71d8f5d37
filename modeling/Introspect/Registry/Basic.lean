import Introspect.World.Ref
/-!
The registry of type descriptors: one for each class that was asked for, found by the class or by
the qualified name that the class had then. A name leads to the descriptor registered last under it.
-/
namespace Introspect

structure Descriptor where
  cls : ClassId
  qname : String
  name : String
deriving DecidableEq

/-- Descriptors by identity, with the living ones by class and by name. -/
structure Registry where
  descriptors : Array Descriptor
  byClass : List (ClassId × Nat)
  byName : List (String × Nat)

namespace Registry

def empty : Registry := ⟨#[], [], []⟩

def descriptor? (r : Registry) (id : Nat) : Option Descriptor := r.descriptors[id]?

/-- The descriptor of a class, made when it is first asked for. -/
def register (cls : ClassId) (qname name : String) (r : Registry) : Registry × Nat :=
  match r.byClass.lookup cls with
  | some id => (r, id)
  | none =>
    let id := r.descriptors.size
    ({ descriptors := r.descriptors.push ⟨cls, qname, name⟩
       byClass := (cls, id) :: r.byClass
       byName := (qname, id) :: r.byName.filter (·.1 ≠ qname) }, id)

/-- Drops the classes that are gone, and the names of descriptors that are held neither by their
class nor by anybody else. -/
def sweep (isAlive : ClassId → Bool) (isHeld : Nat → Bool) (r : Registry) : Registry :=
  let byClass := r.byClass.filter fun (c, _) => isAlive c
  { r with
    byClass
    byName := r.byName.filter fun (_, id) => byClass.any (·.2 = id) || isHeld id }

end Registry

end Introspect
