import Introspect.Config.Basic
import Introspect.Log.Basic
import Introspect.Registry.Basic
/-! The world of objects and classes, and views of it that are total. -/
namespace Introspect

structure World where
  classes : Array ClassInfo
  functions : Array Function
  cells : Array Cell
  /-- Declared classes that nothing but a class below them keeps alive. -/
  dropped : List ClassId
  registry : Registry
  config : Config
  log : LogBook
  modules : List (String × List (String × Ref))
  ids : List (String × ClassId)
  nesting : Nat

/-- A computation on the world that may fail; what it did before stays. -/
abbrev Act := EStateM Fault World

namespace World

/-! ## Classes -/

def info (w : World) : ClassId → ClassInfo
  | .native n => n.info
  | .declared i => (w.classes[i]?).getD Native.object.info

def ancestry (w : World) (c : ClassId) : List ClassId := (w.info c).ancestry

def isSubclass (w : World) (c parent : ClassId) : Bool := (w.ancestry c).contains parent

/-- A dropped class lives on as long as a class below it that is not dropped. -/
def isAlive (w : World) (c : ClassId) : Bool :=
  !w.dropped.contains c ||
    (List.range w.classes.size).any fun i =>
      !w.dropped.contains (.declared i) && w.isSubclass (.declared i) c

/-- The first entry for a key along the ancestry, with the class that holds it. -/
def entryAmong? (w : World) (key : String) : List ClassId → Option (ClassId × Entry)
  | [] => none
  | c :: rest =>
    match (w.info c).entryOf? key with
    | some e => some (c, e)
    | none => entryAmong? w key rest

def entryOf? (w : World) (c : ClassId) (key : String) : Option (ClassId × Entry) :=
  w.entryAmong? key (w.ancestry c)

/-- Instances of a class have an attribute dictionary if some ancestor gives them one: a native
class by its kind, a declared one unless it lists its slots without it. -/
def givesDictionary (w : World) : ClassId → Bool
  | .native n => (n.members.lookup "__dict__").isSome
  | .declared i =>
    match (w.info (.declared i)).slots with
    | none => true
    | some slots => slots.contains "__dict__"

def hasDictionary (w : World) (c : ClassId) : Bool := (w.ancestry c).any w.givesDictionary

/-! ## Objects -/

def atomClass : Atom → Native
  | .none => .noneType
  | .bool _ => .bool
  | .number (.int _) => .int
  | .number (.float _) => .float
  | .number (.decimal _) => .decimal
  | .number (.fraction ..) => .fraction
  | .number (.complex ..) => .complex
  | .number (.declared _) => .numeric
  | .text _ => .str
  | .bytes _ => .bytes

def routineClass : Routine → Native
  | .length | .magnitude => .builtinFunction
  | .zero | .one | .function _ => .function
  | .native owner name =>
    match owner.members.lookup name with
    | some (.operation _ true _) => .function
    | _ => .methodDescriptor

def entryClass : Option Entry → Native
  | some (.classLevel _) => .classMethod
  | some (.static _) => .staticMethod
  | some (.property _) => .property
  | some (.slot _) => .slotMember
  | _ => .object

def classOf (w : World) : Ref → ClassId
  | .atom a => .native (atomClass a)
  | .emptyTuple => .native .tuple
  | .cell i => (w.cells[i]?).elim (.native .object) (·.cls)
  | .cls _ => .native .type
  | .descriptor _ => .native .descriptor
  | .weak _ => .native .weakReference
  | .routine r => .native (routineClass r)
  | .entry c key => .native (entryClass ((w.info c).entryOf? key))
  | .ellipsis => .native .ellipsis
  | .notImplemented => .native .notImplemented

def entryBody : Option Entry → Body
  | some (.classLevel _) | some (.static _) => .methodWrapper
  | _ => .nothing

def body (w : World) : Ref → Body
  | .atom a => .atom a
  | .emptyTuple => .sequence []
  | .cell i => (w.cells[i]?).elim .nothing (·.body)
  | .cls c => .cls c
  | .descriptor id => .descriptor id
  | .routine r => .routine r
  | .entry c key => entryBody ((w.info c).entryOf? key)
  | _ => .nothing

def isInstance (w : World) (r : Ref) (n : Native) : Bool := w.isSubclass (w.classOf r) (.native n)

def atom? (w : World) (r : Ref) : Option Atom :=
  match w.body r with
  | .atom a => some a
  | _ => none

/-- Plain values have no storage shape: nothing, texts, bytes and numbers, those of declared classes
among them. -/
def isPlain (w : World) (r : Ref) : Bool := (w.atom? r).isSome

def isRoutine (w : World) (r : Ref) : Bool :=
  match w.body r with
  | .routine _ | .bound .. | .methodWrapper => true
  | _ => false

def textRef (s : String) : Ref := .atom (.text s)

/-- The attribute dictionary. What a box, an error of the library and a descriptor hold stands in it
first. -/
def dictionary? (w : World) : Ref → Option (List (String × Ref))
  | .cell i =>
    match w.cells[i]? with
    | none => none
    | some cell =>
      match cell.body with
      | .box value tainted =>
        some ([("_val", value), ("_tainted", .atom (.bool tainted))] ++ cell.attributes.getD [])
      | .error message cause =>
        if w.isSubclass cell.cls (.native .obj) then
          some ([("_msg", message), ("_cause", cause)] ++ cell.attributes.getD [])
        else cell.attributes
      | _ => cell.attributes
  | .descriptor id =>
    (w.registry.descriptor? id).map fun d =>
      [("_cls", .weak id), ("_qname", textRef d.qname), ("_name", textRef d.name)]
  | .routine (.zero) | .routine (.one) | .routine (.function _) => some []
  | _ => none

def slot? (w : World) (r : Ref) (owner : ClassId) (name : String) : Option Ref :=
  match r with
  | .cell i => (w.cells[i]?).bind fun cell => cell.slots.lookup (owner, name)
  | _ => none

/-- The slots that instances of a class have, those of the most distant ancestor first. -/
def slotNames (w : World) (c : ClassId) : List String :=
  (w.ancestry c).reverse.foldl (fun names c =>
    ((w.info c).slots.getD []).foldl (fun names name =>
      if name = "__dict__" ∨ name = "__weakref__" ∨ names.contains name then names
      else names ++ [name]) names) []

/-! ## Functions -/

def function? (w : World) (i : Nat) : Option Function := w.functions[i]?

/-- The code of a function, which a wrapper shares with the function it wraps. -/
def functionCode? (w : World) (i : Nat) : Option Routine :=
  match w.function? i with
  | none => none
  | some f =>
    if f.looped then none
    else match f.wraps with
      | some j => some (.function j)
      | none => some (.function i)

def routineCode? (w : World) : Routine → Option Routine
  | .zero => some .zero
  | .one => some .one
  | .function i => w.functionCode? i
  | .native owner name =>
    match owner.members.lookup name with
    | some (.operation _ true _) => some (.native owner name)
    | _ => none
  | _ => none

def codeOf? (w : World) (r : Ref) : Option Routine :=
  match w.body r with
  | .routine r => w.routineCode? r
  | .bound _ f =>
    match w.body f with
    | .routine r => w.routineCode? r
    | _ => none
  | _ => none

end World

/-! ## Making objects -/

/-- Atoms that exist only once: nothing, truth values, small integers, and texts and bytes of at
most one character. -/
def Atom.isShared : Atom → Bool
  | .none | .bool _ => true
  | .number (.int i) => -5 ≤ i && i ≤ 256
  | .number _ => false
  | .text s => s.toList.all (·.toNat < 256) && s.length ≤ 1
  | .bytes b => b.length ≤ 1

namespace Act

def alloc (cell : Cell) : Act Ref :=
  modifyGet fun w => (.cell w.cells.size, { w with cells := w.cells.push cell })

def fresh (n : Native) (body : Body) : Act Ref :=
  alloc ⟨.native n, body, [], none⟩

def atom (a : Atom) : Act Ref :=
  if a.isShared then return .atom a else fresh (World.atomClass a) (.atom a)

def text (s : String) : Act Ref := atom (.text s)

def list (items : List Ref) : Act Ref := fresh .list (.sequence items)

def tuple (items : List Ref) : Act Ref :=
  if items.isEmpty then return .emptyTuple else fresh .tuple (.sequence items)

def dict (entries : List (Ref × Ref)) : Act Ref := fresh .dict (.mapping entries)

def liftExcept {α : Type} : Except Fault α → Act α
  | .ok a => return a
  | .error fault => throw fault

def modifyCell (address : Nat) (f : Cell → Cell) : Act Unit :=
  modify fun w => { w with cells := w.cells.modify address f }

def config {α : Type} (x : Config.Act α) : Act α := fun w =>
  match x w.config with
  | .ok a c => .ok a { w with config := c }
  | .error fault c => .error fault { w with config := c }

def modifyLog (f : LogBook → LogBook) : Act Unit := modify fun w => { w with log := f w.log }

end Act

end Introspect
