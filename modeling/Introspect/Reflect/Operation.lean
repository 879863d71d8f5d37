import Introspect.World.Basic
/-!
The operations of a class: those that its namespace declares, and those that dispatch finds along
its ancestry.
-/
namespace Introspect

/-- An operation, a namespace entry of the class that declares it. -/
structure Operation where
  owner : ClassId
  name : String
  entry : Entry
  /-- A later class of the ancestry has an entry of the same name. -/
  overrides : Bool

namespace World

/-- Routines and what binds to a class or to nothing are operations; values, properties, slots and
nested classes are not. -/
def isOperation (w : World) : Entry → Bool
  | .native _ (.operation ..) => true
  | .native _ .data => false
  | .value r => w.isRoutine r
  | .classLevel _ | .static _ => true
  | .property _ | .slot _ => false

/-- The code that runs when an operation is called; none if it has no code of its own. -/
def entryCode? (w : World) (key : String) : Entry → Option Routine
  | .native owner (.operation _ true _) => some (.native owner key)
  | .native .. => none
  | .value r | .classLevel r | .static r => w.codeOf? r
  | .property _ | .slot _ => none

def isAbstract (w : World) : Entry → Bool
  | .native _ (.operation _ _ isAbstract) => isAbstract
  | .value r | .classLevel r | .static r =>
    match w.body r with
    | .routine (.function i) => (w.function? i).any (·.isAbstract)
    | _ => false
  | _ => false

def hasEntry (w : World) (key : String) (c : ClassId) : Bool := ((w.info c).entryOf? key).isSome

/-- The operations that a class declares itself, in the order of its namespace. -/
def declared (w : World) (c : ClassId) : List Operation :=
  ((w.info c).entries.filter fun (_, e) => w.isOperation e).map fun (key, e) =>
    ⟨c, key, e, (w.ancestry c).tail.any (w.hasEntry key)⟩

def declared? (w : World) (c : ClassId) (name : String) : Option Operation :=
  (w.declared c).find? (·.name = name)

/-- The first class that declares an operation of the name decides. -/
def operationAmong? (w : World) (name : String) : List ClassId → Option Operation
  | [] => none
  | c :: rest => (w.declared? c name).or (operationAmong? w name rest)

def operation? (w : World) (c : ClassId) (name : String) : Option Operation :=
  w.operationAmong? name (w.ancestry c)

/-- Adds the operations whose names are not there yet. -/
def collect (found : List Operation) (more : List Operation) : List Operation :=
  more.foldl (fun found op => if found.any (·.name = op.name) then found else found ++ [op]) found

/-- The operations of the classes, those of the root only if asked for; of two with one name the
first stays. Sorted by name. -/
def operationsAmong (w : World) (withRoot : Bool) (classes : List ClassId) : List Operation :=
  let classes := classes.filter fun c => withRoot || c ≠ .native .object
  let found := classes.foldl (fun found c => collect found (w.declared c)) []
  found.mergeSort fun a b => a.name ≤ b.name

def operations (w : World) (c : ClassId) (withRoot justMine : Bool) : List Operation :=
  w.operationsAmong withRoot (if justMine then [c] else w.ancestry c)

/-! ## Flags -/

structure Flags where
  isPrivate : Bool
  isStatic : Bool
  isClassLevel : Bool
  isAbstract : Bool
  isNative : Bool
  isOverride : Bool
deriving DecidableEq

/-- Each flag has a bit of its own; what is not private is public. -/
def Flags.toNat (f : Flags) : Nat :=
  (if f.isPrivate then 0x2 else 0x1) + (if f.isNative then 0x10 else 0) +
    (if f.isOverride then 0x200 else 0) + (if f.isAbstract then 0x400 else 0) +
    (if f.isStatic then 0x800 else 0) + (if f.isClassLevel then 0x1000 else 0)

/-- A leading underscore makes a name private, two at the end make it public again. -/
def isPrivateName (name : String) : Bool := name.startsWith "_" && !name.endsWith "__"

def binding : Entry → Binding
  | .native _ (.operation b _ _) => b
  | .classLevel _ => .owner
  | .static _ => .nothing
  | _ => .receiver

def flags (w : World) (op : Operation) : Flags where
  isPrivate := isPrivateName op.name
  isStatic := binding op.entry = .nothing
  isClassLevel := binding op.entry = .owner
  isAbstract := w.isAbstract op.entry
  isNative := (w.entryCode? op.name op.entry).isNone
  isOverride := op.overrides

end World

end Introspect
