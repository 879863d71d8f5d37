import Introspect.Class.Linearization
import Introspect.Reflect.Parent
import Introspect.Text.Alnum
/-!
Declarations of classes, and when they are refused: for parents that cannot be extended or whose
storage layouts exclude each other, for slots that there is no room for, and for parents whose
orders contradict.
-/
namespace Introspect

structure Declaration where
  name : String
  qualname : String
  modName : Option String
  bases : List ClassId
  slots : Option (List String)
  entries : List (String × Entry)

namespace Native

/-- Native classes that no class can extend. -/
def isFinal : Native → Bool
  | .bool | .noneType | .range | .mappingProxy | .dictKeys | .function | .builtinFunction
  | .boundMethod | .methodDescriptor | .wrapperDescriptor | .slotMember | .ellipsis
  | .notImplemented => true
  | _ => false

/-- Native classes whose instances are stored in a way of their own. -/
def hasLayout : Native → Bool
  | .type | .int | .float | .complex | .str | .bytes | .bytearray | .list | .tuple | .dict | .set
  | .frozenset | .orderedDict | .defaultDict | .deque | .decimal | .fraction | .partialCall
  | .property | .classMethod | .staticMethod | .weakReference | .ioBase | .textIOBase | .stringIO
  | .host .baseException => true
  | _ => false

/-- Native classes whose instances differ in size, so that slots find no place in them. -/
def variesInSize : Native → Bool
  | .type | .int | .tuple | .bytes => true
  | _ => false

/-- Native classes whose instances can be referred to weakly. -/
def isWeaklyReferable : Native → Bool
  | .type | .set | .frozenset | .deque | .orderedDict | .partialCall | .ioBase => true
  | n => (n.members.lookup "__weakref__").isSome

end Native

namespace World

def storedSlots (slots : List String) : List String :=
  slots.filter fun name => name ≠ "__dict__" && name ≠ "__weakref__"

def variesInSize (w : World) (c : ClassId) : Bool :=
  (w.ancestry c).any fun
    | .native n => n.variesInSize
    | .declared _ => false

/-- A dictionary changes how instances that vary in size are stored, unless an ancestor that varies
has one already. -/
def addsDictionary (w : World) (c : ClassId) : Bool :=
  w.variesInSize c && w.hasDictionary c &&
    (w.ancestry c).tail.all fun d => !(w.variesInSize d && w.hasDictionary d)

def hasOwnLayout (w : World) : ClassId → Bool
  | .native n => n.hasLayout
  | .declared i =>
    !(storedSlots ((w.info (.declared i)).slots.getD [])).isEmpty || w.addsDictionary (.declared i)

/-- The ancestor that decides how the instances of a class are stored. -/
def layout (w : World) (c : ClassId) : ClassId :=
  ((w.ancestry c).find? w.hasOwnLayout).getD (.native .object)

/-- The parent whose storage a new class extends: the first one whose layout extends the layouts of
all others. -/
def storageParent? (w : World) (bases : List ClassId) : Option ClassId :=
  bases.find? fun c => bases.all fun d => w.isSubclass (w.layout c) (w.layout d)

/-- A declared class adds weak references unless it lists its slots without them. -/
def givesWeakReferences (w : World) : ClassId → Bool
  | .native n => n.isWeaklyReferable
  | .declared i => ((w.info (.declared i)).slots).all (·.contains "__weakref__")

def hasWeakReferences (w : World) (c : ClassId) : Bool :=
  !w.variesInSize c && (w.ancestry c).any w.givesWeakReferences

end World

namespace Declaration

/-- Parents that are not named are the root. -/
def parents (d : Declaration) : List ClassId :=
  if d.bases.isEmpty then [.native .object] else d.bases

def isFinal : ClassId → Bool
  | .native n => n.isFinal
  | .declared _ => false

def isIdentifier (name : String) : Bool :=
  match name.toList with
  | [] => false
  | c :: rest =>
    !Text.isDigit c && (c :: rest).all fun c => Text.isAlnum c || c = '_'

def slotKeys (d : Declaration) : List String :=
  (World.storedSlots (d.slots.getD [])).map (PrivateName.key d.name)

/-- Whether a slot that asks for room is listed once at most, and only if there is room. -/
def fits (d : Declaration) (name : String) (hasRoom : Bool) : Bool :=
  let count := (d.slots.getD []).count name
  count = 0 || count = 1 && hasRoom

/-- Slots next to what the parent stores already. -/
def checkSlots (w : World) (parent : ClassId) (d : Declaration) : Except Fault Unit := do
  let slots := d.slots.getD []
  let varies := w.variesInSize parent
  if !slots.isEmpty && varies then throw .typeError
  if !slots.all isIdentifier then throw .typeError
  if !d.fits "__dict__" !(w.hasDictionary parent) then throw .typeError
  if !d.fits "__weakref__" !(w.hasWeakReferences parent) then throw .typeError
  if d.slotKeys.any fun key => d.entries.any (·.1 = key) then throw .valueError

def order (w : World) (self : ClassId) (d : Declaration) : Except Fault (List ClassId) :=
  match Linearization.linearize? self d.parents (d.parents.map w.ancestry) with
  | some ancestry => .ok ancestry
  | none => .error .typeError

/-! ## The namespace -/

def isFunction (w : World) (r : Ref) : Bool := w.classOf r = .native .function

/-- Functions under these names take the class or nothing in place of a receiver. -/
def adapt (w : World) (key : String) (e : Entry) : Entry :=
  match key, e with
  | "__new__", .value r => if isFunction w r then .static r else e
  | "__init_subclass__", .value r | "__class_getitem__", .value r =>
    if isFunction w r then .classLevel r else e
  | _, _ => e

/-- An equality without a hash takes the hash away. -/
def hashEntries (entries : List (String × Entry)) : List (String × Entry) :=
  if (entries.lookup "__eq__").isSome && (entries.lookup "__hash__").isNone then
    [("__hash__", .value (.atom .none))]
  else []

def namespaceEntries (w : World) (d : Declaration) : List (String × Entry) :=
  let entries := d.entries.map fun (key, e) => (key, adapt w key e)
  let slots := d.slotKeys.map fun key => (key, Entry.slot key)
  Pairs.putAll entries (slots ++ hashEntries entries)

def info (w : World) (self : ClassId) (d : Declaration) : Except Fault ClassInfo := do
  if d.parents.any isFinal then throw .typeError
  match w.storageParent? d.parents with
  | some parent => d.checkSlots w parent
  | none => throw .typeError
  return {
    name := d.name
    qualname := d.qualname
    modName := d.modName
    bases := d.parents
    ancestry := ← d.order w self
    slots := d.slots
    entries := d.namespaceEntries w }

end Declaration

namespace Act

def declare (d : Declaration) : Act ClassId := do
  let w ← get
  let c := ClassId.declared w.classes.size
  let info ← liftExcept (d.info w c)
  set { w with classes := w.classes.push info }
  return c

end Act

end Introspect
