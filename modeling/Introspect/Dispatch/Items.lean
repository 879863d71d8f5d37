import Introspect.Dispatch.Equal
import Introspect.World.Instance
import Introspect.Declaration.Edit
/-! Items of containers and attributes of objects, assigned, removed and added. -/
namespace Introspect.Dispatch

/-- Runs the hook that a class declares for an operation, or else the operation of its content. -/
def hookedOr (ask : Ask) (r : Ref) (hook : String) (args : List Ref) (native : Act Unit) :
    Act Unit := do
  match declaredHook? (← get) r hook with
  | some found =>
    let _ ← callHook ask r hook found args
  | none => native

def setBody (r : Ref) (body : Body) : Act Unit :=
  match r with
  | .cell address => Act.modifyCell address ({ · with body })
  | _ => throw .typeError

/-- An integer that can be a position at all. -/
def index (key : Ref) : Act Int := do
  match (← get).atom? key |>.bind Atom.number? with
  | some (.int i) => if -Int.pow 2 63 ≤ i && i < Int.pow 2 63 then return i else throw (.host .indexError "")
  | _ => throw .typeError

/-- A position in a sequence of the size, counted from the end if negative. -/
def place (size : Nat) (i : Int) : Act Nat :=
  let i := if i < 0 then i + size else i
  if i < 0 || i ≥ size then throw (.host .indexError "") else return i.toNat

def byteOf (r : Ref) : Act UInt8 := do
  match (← get).atom? r |>.bind Atom.number? with
  | some (.int i) =>
    if 0 ≤ i && i < 256 then return UInt8.ofNat i.toNat else throw .valueError
  | _ => throw .typeError

def isMutableSequence (w : World) (r : Ref) : Bool := w.isInstance r .list || w.isInstance r .deque

/-- Fails as an object does whose items are fixed: what cannot be a position shows first. -/
def refuseItem (r key : Ref) : Act Unit := do
  match (← get).body r with
  | .atom (.text _) | .atom (.bytes _) | .sequence _ | .range .. | .members _ | .mapping _ =>
    let _ ← index key
    throw .typeError
  | _ => throw .typeError

def setNativeItem (r key value : Ref) : Act Unit := do
  let w ← get
  match w.body r with
  | .mapping entries =>
    if !w.isInstance r .dict then refuseItem r key
    Act.checkKey key
    setBody r (.mapping (w.putKey key value entries))
  | .sequence items =>
    if !isMutableSequence w r then refuseItem r key
    let i ← place items.length (← index key)
    setBody r (.sequence (items.set i value))
  | .byteArray b =>
    let i ← index key
    let byte ← byteOf value
    setBody r (.byteArray (b.set (← place b.length i) byte))
  | _ => refuseItem r key

def deleteNativeItem (r key : Ref) : Act Unit := do
  let w ← get
  match w.body r with
  | .mapping entries =>
    if !w.isInstance r .dict then refuseItem r key
    Act.checkKey key
    if (w.findKey? key entries).isNone then throw (.host .keyError "")
    setBody r (.mapping (w.eraseKey key entries))
  | .sequence items =>
    if !isMutableSequence w r then refuseItem r key
    let i ← place items.length (← index key)
    setBody r (.sequence (items.eraseIdx i))
  | .byteArray b =>
    let i ← place b.length (← index key)
    setBody r (.byteArray (b.eraseIdx i))
  | _ => refuseItem r key

def appendNative (r value : Ref) : Act Unit := do
  let w ← get
  match w.body r with
  | .sequence items =>
    if !isMutableSequence w r then throw .attributeError
    setBody r (.sequence (items ++ [value]))
  | .byteArray b => do setBody r (.byteArray (b ++ [← byteOf value]))
  | _ => throw .attributeError

def addNative (r value : Ref) : Act Unit := do
  let w ← get
  match w.body r with
  | .members items =>
    if !w.isInstance r .set then throw .attributeError
    Act.checkKey value
    setBody r (.members (w.addMember items value))
  | _ => throw .attributeError

def setItem (ask : Ask) (r key value : Ref) : Act Unit :=
  hookedOr ask r "__setitem__" [key, value] (setNativeItem r key value)

def deleteItem (ask : Ask) (r key : Ref) : Act Unit :=
  hookedOr ask r "__delitem__" [key] (deleteNativeItem r key)

def append (ask : Ask) (r value : Ref) : Act Unit :=
  hookedOr ask r "append" [value] (appendNative r value)

def add (ask : Ask) (r value : Ref) : Act Unit :=
  hookedOr ask r "add" [value] (addNative r value)

/-- An attribute of a class is an entry of its namespace. -/
def assignAttribute (ask : Ask) (r : Ref) (name : String) (value : Ref) : Act Unit := do
  match r with
  | .cls c => Act.assignEntry c name (.value value)
  | _ => do
    hookedOr ask r "__setattr__" [← Act.text name, value] (Act.setAttribute r name value)

end Introspect.Dispatch
