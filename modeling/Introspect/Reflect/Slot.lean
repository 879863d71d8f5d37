import Introspect.Registry.Members
/-! Slots, the named members of types, described by flag bits. -/
namespace Introspect

structure Slot where
  parent : Option Nat
  name : String
  flags : Int

namespace Slot

def qname (s : Slot) : Act String :=
  match s.parent with
  | some id => do return (← Registry.qname id) ++ "." ++ s.name
  | none => return s.name

def ofOperation (op : Operation) : Act Slot := do
  let parent ← Registry.parent op
  return ⟨some parent, op.name, ((← get).flags op).toNat⟩

/-- A negative number has all bits beyond its size. -/
def has (s : Slot) (bit : Nat) : Bool := (s.flags >>> bit) % 2 = 1

def isPublic (s : Slot) : Bool := s.has 0
def isPrivate (s : Slot) : Bool := s.has 1
def isNative (s : Slot) : Bool := s.has 4
def isOverride (s : Slot) : Bool := s.has 9
def isAbstract (s : Slot) : Bool := s.has 10
def isStatic (s : Slot) : Bool := s.has 11
def isClassLevel (s : Slot) : Bool := s.has 12

end Slot

end Introspect
