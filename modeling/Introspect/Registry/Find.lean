import Introspect.Log.Deliver
import Introspect.Text.Parts
/-! Descriptors of classes and of objects, and classes found by their qualified names. -/
namespace Introspect.Registry

def ofClass (c : ClassId) : Act Nat :=
  modifyGet fun w =>
    let info := w.info c
    let (registry, id) := w.registry.register c info.fullName info.name
    (id, { w with registry := registry })

def of (r : Ref) : Act Nat := do ofClass ((← get).classOf r)

def descriptor (id : Nat) : Act Descriptor := do
  match (← get).registry.descriptor? id with
  | some d => return d
  | none => throw (.goneType "")

def qname (id : Nat) : Act String := do return (← descriptor id).qname

def qnameOf (r : Ref) : Act String := do qname (← of r)

def class? (id : Nat) : Act (Option ClassId) := do
  let d ← descriptor id
  return if (← get).isAlive d.cls then some d.cls else none

/-- The class of a descriptor, which has to exist still. -/
def liveClass (id : Nat) : Act ClassId := do
  match ← class? id with
  | some c => return c
  | none => throw (.goneType (← qname id))

def parents (id : Nat) : Act (List Nat) := do
  let c ← liveClass id
  (((← get).info c).bases.filter (· ≠ .native .object)).mapM ofClass

/-- The type and its ancestors in the order of dispatch. -/
def ancestry (id : Nat) : Act (List Nat) := do
  let c ← liveClass id
  ((← get).ancestry c).mapM ofClass

/-! ## Names -/

/-- Native names that one module takes over from others. -/
def shared : String → List Native
  | "objmeta" =>
    [.obj, .objUtil, .descriptor, .slot, .slotFlags, .method, .scalar, .taintedStr, .taint, .digest,
     .env, .log, .logLevel, .logRecord, .handle, .instanceHandle, .classHandle] ++
      ErrorKind.all.map .error
  | "objmeta.ObjUtil" => []
  | "objmeta.Meta" => [.obj, .env, .descriptor, .objUtil, .taint]
  | "objmeta.Taint" => [.objUtil, .scalar, .taintedStr]
  | "objmeta.Method" => [.slot, .slotFlags]
  | "objmeta.Type" | "objmeta.Slot" | "objmeta.Scalar" | "objmeta.Err" | "objmeta.Digest"
  | "objmeta.Env" | "objmeta.Log" => [.obj]
  | "objmetax" => [.perlEncoder, .plainEncoder, .jsonEncoder, .yamlEncoder]
  | "objmetax.PerlEncoder" | "objmetax.PlainEncoder" => [.objUtil]
  | "objmetax.JsonEncoder" | "objmetax.YamlEncoder" => [.plainEncoder]
  | _ => []

/-- Classes that their module does not show. -/
def isHidden : Native → Bool
  | .noneType | .mappingProxy | .dictKeys | .function | .builtinFunction | .boundMethod
  | .methodDescriptor | .wrapperDescriptor | .slotMember | .ellipsis | .notImplemented => true
  | _ => false

def nativeModules : List String :=
  (Native.all.map (·.fullName.1)).eraseDups ++ ["objmeta", "objmetax"]

/-- The native classes that a module binds. -/
def nativeIn (moduleName : String) : List Native :=
  shared moduleName ++ Native.all.filter fun n => n.fullName.1 = moduleName && !isHidden n

def isModule (w : World) (name : String) : Bool :=
  w.modules.any (·.1 = name) || nativeModules.contains name

def inModule? (w : World) (moduleName name : String) : Option Ref :=
  (((w.modules.lookup moduleName).getD []).lookup name).or
    (((nativeIn moduleName).find? (·.fullName.2 = name)).map fun n => .cls (.native n))

/-- What the names lead to from an object, each an attribute of what the one before it leads to.
Nothing leads nowhere. -/
def follow (ask : Ask) : List String → Option Ref → Act (Option Ref)
  | [], r => return r
  | name :: rest, r => do
    match r with
    | none | some (.atom .none) => return none
    | some r => follow ask rest (← ask.attribute? r name)

/-- The object that the parts of a name after the module lead to. -/
def followIn (ask : Ask) (moduleName : String) : List String → Act (Option Ref)
  | [] => return none
  | first :: rest => do follow ask rest (inModule? (← get) moduleName first)

/-- The longest beginning of the name that is a module decides; the rest are names within it.
`count` parts are tried as a module, then fewer. -/
def followWithin (ask : Ask) (parts : List String) : Nat → Act (Option Ref)
  | 0 => return none
  | count + 1 => do
    let moduleName := ".".intercalate (parts.take (count + 1))
    if isModule (← get) moduleName then followIn ask moduleName (parts.drop (count + 1))
    else followWithin ask parts count

/-- A class that has ended is found nowhere. -/
def asClass? (w : World) : Option Ref → Option ClassId
  | some (.cls c) => if w.isAlive c then some c else none
  | _ => none

/-- What a qualified name leads to in the modules that exist. The empty name leads nowhere. -/
def locate (ask : Ask) (qname : String) : Act (Option Ref) :=
  match Text.parts qname with
  | [name] => if name = "" then return none else do return inModule? (← get) "builtins" name
  | parts => followWithin ask parts (parts.length - 1)

/-- The class that a qualified name stands for. -/
def resolve (ask : Ask) (qname : String) : Act (Option ClassId) := do
  let found ← locate ask qname
  return asClass? (← get) found

/-- Leaves a record of a name that led to a class. -/
def recordFound (ask : Ask) (qname : String) : Act Unit := Log.debug ask (return "Resolved type " ++ qname)

/-- The descriptor of a qualified name: one that is registered under it, or that of the class it
resolves to. -/
def find? (ask : Ask) (qname : String) : Act (Option Nat) := do
  match (← get).registry.byName.lookup qname with
  | some id => return some id
  | none =>
    match ← resolve ask qname with
    | none => return none
    | some c =>
      recordFound ask qname
      return some (← ofClass c)

def find (ask : Ask) (qname : String) : Act Nat := do
  match ← find? ask qname with
  | some id => return id
  | none => throw (.unknownType qname)

/-- The class that a name leads to is among a type and its ancestors. -/
def fitsName (ask : Ask) (id : Nat) (name : String) : Act Bool := do
  match ← find? ask name with
  | none => return false
  | some that => return (← ancestry id).contains that

/-- A class, a name of a class, or a descriptor is among a type and its ancestors; nothing else is. -/
def fits (ask : Ask) (id : Nat) (other : Ref) : Act Bool := do
  match other, (← get).atom? other with
  | .cls c, _ =>
    let that ← ofClass c
    return (← ancestry id).contains that
  | _, some (.text name) => fitsName ask id name
  | .descriptor that, _ => return (← ancestry id).contains that
  | _, _ =>
    let _ ← ancestry id
    return false

end Introspect.Registry
