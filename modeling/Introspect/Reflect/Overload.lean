import Introspect.World.Basic
/-! Conversions and equality that a class overloads. -/
namespace Introspect

structure Overloads where
  text : Bool
  number : Bool
  equality : Bool
deriving DecidableEq

namespace Overloads

def none : Overloads := ⟨false, false, false⟩

def union (a b : Overloads) : Overloads :=
  ⟨a.text || b.text, a.number || b.number, a.equality || b.equality⟩

def names (o : Overloads) : List String :=
  (if o.equality then ["eq"] else []) ++ (if o.number then ["num"] else []) ++
    (if o.text then ["str"] else [])

end Overloads

namespace ClassInfo

def textHooks : List String := ["__str__"]

/-- In the order in which a conversion tries them. -/
def numberHooks : List String := ["__int__", "__float__", "__index__"]

def equalityHook : String := "__eq__"

def isNothing : Entry → Bool
  | .value (.atom .none) => true
  | _ => false

/-- The root and the classes of `builtins` overload nothing. An equality that is set to nothing does
not count; a conversion that is set to nothing does. -/
def overloads (isRoot : Bool) (info : ClassInfo) : Overloads :=
  if isRoot || info.modName = some "builtins" then .none
  else
    { text := textHooks.any fun h => (info.entryOf? h).isSome
      number := numberHooks.any fun h => (info.entryOf? h).isSome
      equality := (info.entryOf? equalityHook).any fun e => !isNothing e }

end ClassInfo

namespace World

def overloads (w : World) (c : ClassId) : Overloads :=
  (w.ancestry c).foldl (fun found c =>
    found.union ((w.info c).overloads (c = .native .object))) .none

end World

end Introspect
