import Introspect.Declaration.Basic
import Introspect.Registry.Find
/-! Classes bound in modules, changed after their declaration, and dropped. -/
namespace Introspect

namespace World

def modifyClass (i : Nat) (f : ClassInfo → ClassInfo) (w : World) : World :=
  { w with classes := w.classes.modify i f }

def putEntry (i : Nat) (key : String) (e : Entry) : World → World :=
  modifyClass i fun info => { info with entries := Pairs.put key e info.entries }

/-- Binds a name in a module, which comes to exist by it. -/
def bind (moduleName name : String) (r : Ref) (w : World) : World :=
  let bound := (w.modules.lookup moduleName).getD []
  { w with modules := Pairs.put moduleName (Pairs.put name r bound) w.modules }

/-- Whether an entry is a class itself. -/
def isEntryOf (c : ClassId) : Entry → Bool
  | .value r => r = .cls c
  | _ => false

/-- Removes a class from identifiers, modules and the classes that hold it. -/
def unbindClass (c : ClassId) (w : World) : World :=
  { w with
    ids := w.ids.filter (·.2 ≠ c)
    modules := w.modules.map fun (name, bound) => (name, bound.filter (·.2 ≠ .cls c))
    classes := w.classes.map fun info =>
      { info with entries := info.entries.filter fun (_, e) => !isEntryOf c e } }

/-- The text that an entry is. -/
def entryText? (w : World) : Entry → Option String
  | .value r =>
    match w.atom? r with
    | some (.text s) => some s
    | _ => none
  | _ => none

/-- A class that is bound nowhere any more and ends. -/
def forget (c : ClassId) (w : World) : World :=
  { w.unbindClass c with dropped := c :: w.dropped }

end World

namespace Act

/-- Binds a class in a module under its qualified name. Of a name of several parts all but the last
lead to the class that is to hold it. -/
def bindClass (ask : Ask) (moduleName qualname : String) (c : ClassId) : Act Unit := do
  let parts := Text.parts qualname
  let last := parts.getLastD ""
  match parts.dropLast with
  | [] => modify (World.bind moduleName last (.cls c))
  | holders =>
    match ← Registry.followIn ask moduleName holders with
    | some (.cls (.declared i)) => modify (World.putEntry i last (.value (.cls c)))
    | _ => return

/-- Stores an entry in a declared class. The names of a class are stored apart from its entries. -/
def assignEntry (c : ClassId) (key : String) (e : Entry) : Act Unit := do
  match c with
  | .native _ => throw .typeError
  | .declared i =>
    match key, (← get).entryText? e with
    | "__name__", some s => modify (World.modifyClass i ({ · with name := s }))
    | "__qualname__", some s => modify (World.modifyClass i ({ · with qualname := s }))
    | "__name__", none | "__qualname__", none => throw .typeError
    | "__module__", modName => modify (World.modifyClass i ({ · with modName }))
    | _, _ => modify (World.putEntry i key e)

/-- Removes an entry from a declared class, which has to have it itself. -/
def eraseEntry (c : ClassId) (key : String) : Act Unit := do
  match c with
  | .native _ => throw .typeError
  | .declared i =>
    if ["__name__", "__qualname__", "__module__"].contains key then throw .typeError
    if (((← get).info c).entryOf? key).isNone then throw .attributeError
    modify (World.modifyClass i fun info => { info with entries := Pairs.erase key info.entries })

end Act

end Introspect
