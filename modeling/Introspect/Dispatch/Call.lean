import Introspect.Dispatch.Convert
import Introspect.Dispatch.Text
import Introspect.Dispatch.Equal
import Introspect.Registry.Find
import Introspect.World.Instance
/-! Calls of functions, of native operations and of classes. -/
namespace Introspect.Dispatch

/-- Runs a declared function. One that takes a receiver needs an argument to be it. -/
def callFunction (ask : Ask) (i : Nat) (args : List Ref) (keywords : List (String × Ref)) :
    Act Ref := do
  match (← get).function? i with
  | none => throw .typeError
  | some f =>
    match f.wraps with
    | some inner =>
      let result ← ask (.call (.routine (.function inner)) args keywords)
      Act.list [← Act.text "wrap", result]
    | none =>
      if f.takesReceiver then
        match args with
        | [] => throw .typeError
        | r :: rest => ask (.eval ⟨some r, rest, keywords, i⟩ f.body)
      else ask (.eval ⟨none, args, keywords, i⟩ f.body)

def isCallable (w : World) (r : Ref) : Bool :=
  match w.body r with
  | .routine _ | .bound .. | .partialCall _ | .cls _ => true
  | _ => (declaredHook? w r "__call__").isSome

/-! ## Handlers of logs -/

/-- A handler as an object. A recorder is none of the program's own objects: a new one stands for it. -/
def handlerObject : Handler → Act Ref
  | .callable f => return f
  | .recorder _ => Act.fresh .object .nothing

/-- The place of the first handler that equals an object. -/
def placeOfHandler (ask : Ask) (r : Ref) : List Handler → Act (Option Nat)
  | [] => return none
  | handler :: rest => do
    if ← ask.areEqual (← handlerObject handler) r then return some 0
    else return (← placeOfHandler ask r rest).map (· + 1)

def addHandler (r : Ref) : Act Ref := do
  if !isCallable (← get) r then throw .handlerNotCallable
  Act.modifyLog (·.addCallable r)
  return .atom .none

/-- Takes the first handler that equals an object off the list, if there is one. -/
def removeHandler (ask : Ask) (r : Ref) : Act Ref := do
  match ← placeOfHandler ask r (← get).log.handlers with
  | some place => Act.modifyLog (·.removeAt place)
  | none => pure ()
  return .atom .none

/-! ## Native operations -/

def mappingOf (r : Ref) : Act (List (Ref × Ref)) := do
  match (← get).body r with
  | .mapping entries => return entries
  | _ => throw .typeError

def mappingGet (r key fallback : Ref) : Act Ref := do
  Act.checkKey key
  let entries ← mappingOf r
  return (((← get).findKey? key entries).map (·.2)).getD fallback

def mappingPop (r key : Ref) (fallback : Option Ref) : Act Ref := do
  Act.checkKey key
  let entries ← mappingOf r
  let w ← get
  match w.findKey? key entries, fallback with
  | some (_, value), _ =>
    match r with
    | .cell address =>
      Act.modifyCell address ({ · with body := .mapping (w.eraseKey key entries) })
    | _ => pure ()
    return value
  | none, some value => return value
  | none, none => throw (.host .keyError "")

def countEqual (ask : Ask) (x : Ref) : List Ref → Act Nat
  | [] => return 0
  | y :: rest => do
    let here ← ask.areEqual y x
    return (← countEqual ask x rest) + (if here then 1 else 0)

def sequenceCount (ask : Ask) (r x : Ref) : Act Ref := do
  match (← get).body r with
  | .sequence items => Act.atom (Atom.int (← countEqual ask x items))
  | _ => throw .typeError

def boxValue (r : Ref) : Act Ref := do
  match (← get).body r with
  | .box value _ => return value
  | _ => throw .attributeError

def setBox (r value : Ref) : Act Ref := do
  match r, (← get).body r with
  | .cell address, .box .. =>
    let tainted := (← get).isInstance value .taintedStr
    Act.modifyCell address ({ · with body := .box value tainted })
    return r
  | _, _ => throw .attributeError

/-- The library's own texts for its objects. -/
def ownText (ask : Ask) (r : Ref) : Act Ref := do
  let w ← get
  match w.body r with
  | .box value _ => ask (.text value)
  | .descriptor id => Act.text (← Registry.qname id)
  | .error message _ =>
    let qname ← Registry.qnameOf r
    if ← ask.isTrue message then Act.text (qname ++ ": " ++ (← ask.textOf message))
    else Act.text qname
  | _ => Act.text ((w.info (w.classOf r)).name ++ identity)

def errorMessage (r : Ref) : Act Ref := do
  match (← get).body r with
  | .error (.atom .none) _ => Act.text ""
  | .error message _ => return message
  | _ => throw .attributeError

def errorCause (r : Ref) : Act Ref := do
  match (← get).body r with
  | .error _ cause => return cause
  | _ => throw .attributeError

def newBox (value : Ref) : Act Ref := do
  let tainted := (← get).isInstance value .taintedStr
  Act.alloc ⟨.native .scalar, .box value tainted, [], some []⟩

/-- The number that an operation of a number class works on. -/
def numberOperand (r : Ref) : Act Number := do
  match ((← get).atom? r).bind Atom.number? with
  | some n => return n
  | none => throw .typeError

def textUpper (r : Ref) : Act Ref := do Act.text (Text.upper (← Ask.content r))

/-- Operations that a native class has for its objects by their content. -/
def callContent (ask : Ask) (owner : Native) (name : String) (args : List Ref) : Act Ref := do
  match name, args with
  | "__str__", [r] => nativeText ask owner r
  | "__int__", [r] | "__index__", [r] | "__trunc__", [r] => do
    Act.atom (Atom.int (← numberOperand r >>= fun n => Act.liftExcept (integerOfNumber n)))
  | "__float__", [r] => do
    newDouble (← numberOperand r >>= fun n => Act.liftExcept (doubleOfNumber n))
  | "__bool__", [r] => do return .atom (.bool (bodyTruth ((← get).body r)))
  | "__repr__", [r] => Act.text (← displayBody ask [] owner r)
  | "__eq__", [a, b] => bodyEqual ask a b
  | _, _ => throw .typeError

/-- Ordered mappings inherit `get`, and views of mappings have no `pop`. -/
def callMapping (ask : Ask) (owner : Native) (name : String) (args : List Ref) : Act Ref := do
  match name, args with
  | "get", [r, key] =>
    if owner = .orderedDict then throw .typeError else mappingGet r key (.atom .none)
  | "get", [r, key, fallback] =>
    if owner = .orderedDict then throw .typeError else mappingGet r key fallback
  | "pop", [r, key] => if owner = .mappingProxy then throw .typeError else mappingPop r key none
  | "pop", [r, key, fallback] =>
    if owner = .mappingProxy then throw .typeError else mappingPop r key (some fallback)
  | _, _ => callContent ask owner name args

def callBox (ask : Ask) (name : String) (args : List Ref) : Act Ref := do
  match name, args with
  | "val", [r] => boxValue r
  | "set", [r, value] => setBox r value
  | "make", [] => newBox (.atom .none)
  | "make", [value] => newBox value
  | "__int__", [r] => do ask (.integer (← boxValue r))
  | "__float__", [r] => do ask (.real (← boxValue r))
  | "__bool__", [r] => do ask (.truth (← boxValue r))
  | "__init__", [r] => do
    let _ ← setBox r (.atom .none)
    return .atom .none
  | "__init__", [r, value] => do
    let _ ← setBox r value
    return .atom .none
  | "toStr", [r] => ownText ask r
  | "__str__", [r] => boxText ask r
  | _, _ => callContent ask .scalar name args

/-- Operations of the library's root class. -/
def callRoot (ask : Ask) (name : String) (args : List Ref) : Act Ref := do
  match name, args with
  | "equals", [a, b] => return .atom (.bool (a = b))
  | "typeof", [r] => do return .descriptor (← Registry.of r)
  | "toStr", [r] => ownText ask r
  | "__eq__", [a, b] => ask (.call (← ask (.attribute a "equals")) [b] [])
  | "__repr__", [r] => textFrom ask r "toStr"
  | _, _ => callContent ask .obj name args

def callObject (ask : Ask) (name : String) (args : List Ref) : Act Ref := do
  match name, args with
  | "__init__", _ :: _ => return .atom .none
  | "__eq__", [a, b] => if a = b then return .atom (.bool true) else return .notImplemented
  | _, _ => callContent ask .object name args

def callError (ask : Ask) (kind : ErrorKind) (name : String) (args : List Ref) : Act Ref := do
  match name, args with
  | "msg", [r] => errorMessage r
  | "cause", [r] => errorCause r
  | "toStr", [r] => ownText ask r
  | _, _ => callContent ask (.error kind) name args

/-- The class that a descriptor is of, or nothing if it has ended. -/
def describedClass (r : Ref) : Act Ref := do
  match r with
  | .descriptor id => return (← Registry.class? id).elim (.atom .none) .cls
  | _ => throw .attributeError

/-- Native operations that programs reach, by owner and name. -/
def callNative (ask : Ask) (owner : Native) (name : String) (args : List Ref) : Act Ref := do
  match owner with
  | .dict | .mappingProxy | .orderedDict => callMapping ask owner name args
  | .scalar => callBox ask name args
  | .obj => callRoot ask name args
  | .object => callObject ask name args
  | .error kind => callError ask kind name args
  | .list | .tuple | .deque =>
    match name, args with
    | "count", [r, x] => sequenceCount ask r x
    | _, _ => callContent ask owner name args
  | .str =>
    match name, args with
    | "upper", [r] => textUpper r
    | _, _ => callContent ask owner name args
  | .descriptor =>
    match name, args with
    | "toStr", [r] | "qname", [r] => ownText ask r
    | "pyClass", [r] => describedClass r
    | _, _ => callContent ask owner name args
  | .log =>
    match name, args with
    | "addHandler", [r] => addHandler r
    | "removeHandler", [r] => removeHandler ask r
    | _, _ => callContent ask owner name args
  | _ => callContent ask owner name args

def sizeOf? (w : World) (r : Ref) : Option Nat :=
  match w.body r with
  | .sequence items | .members items => some items.length
  | .mapping entries => some entries.length
  | .byteArray b | .atom (.bytes b) => some b.length
  | .atom (.text s) => some s.length
  | .range start stop step => some (World.rangeShape start stop step).1
  | _ => none

def magnitude? : Atom → Option Number
  | .bool b => some (.int (if b then 1 else 0))
  | .number (.int i) => some (.int i.natAbs)
  | .number (.float (.finite _ m q)) => some (.float (.finite false m q))
  | .number (.float (.infinite _)) => some (.float (.infinite false))
  | .number (.float .nan) => some (.float .nan)
  | .number (.fraction num den) => some (.fraction num.natAbs den)
  | .number (.decimal (.finite _ c e)) => some (.decimal (.finite false c e))
  | _ => none

/-- Operations without code of their own take no receiver of another class. -/
def acceptsReceiver (w : World) (owner : Native) (name : String) (args : List Ref) : Bool :=
  match owner.members.lookup name, args with
  | some (.operation .receiver false _), r :: _ => w.isInstance r owner
  | _, _ => true

def callRoutine (ask : Ask) (r : Routine) (args : List Ref) (keywords : List (String × Ref)) :
    Act Ref := do
  match r, args, keywords with
  | .function i, args, keywords => callFunction ask i args keywords
  | .native owner name, args, [] =>
    if acceptsReceiver (← get) owner name args then callNative ask owner name args
    else throw .typeError
  | .native owner name, args, [("val", value)] =>
    if owner = .scalar then callNative ask owner name (args ++ [value]) else throw .typeError
  | .zero, _, [] => Act.atom (Atom.int 0)
  | .one, _, [] => Act.text "one"
  | .length, [x], [] =>
    match sizeOf? (← get) x with
    | some n => Act.atom (Atom.int n)
    | none => throw .typeError
  | .magnitude, [x], [] =>
    match ((← get).atom? x).bind magnitude? with
    | some n => Act.atom (.number n)
    | none => throw .typeError
  | _, _, _ => throw .typeError

/-! ## Classes -/

def constructNative (ask : Ask) (n : Native) (args : List Ref) : Act Ref := do
  match n, args with
  | .type, [r] => return .cls ((← get).classOf r)
  | .str, [r] => ask (.text r)
  | .int, [r] => ask (.integer r)
  | .float, [r] => ask (.real r)
  | .bool, [r] => ask (.truth r)
  | .str, [] => Act.text ""
  | .int, [] => Act.atom (Atom.int 0)
  | .bool, [] => return .atom (.bool false)
  | .noneType, [] => return .atom .none
  | .tuple, [] => return .emptyTuple
  | .scalar, [r] => newBox r
  | n, [] => Act.instantiate (.native n) (World.emptyBody ((← get).contentClass? (.native n)))
  | _, _ => throw .typeError

def bodyOf (r : Ref) : Act Body := do return (← get).body r

/-- The content of a new instance of a declared class. Without an initializer of its own, a class that
has no content takes no arguments. -/
def newContent (ask : Ask) (content : Option Native) (hasInit : Bool) (args : List Ref)
    (keywords : List (String × Ref)) : Act Body := do
  match content, args with
  | some .str, [r] => bodyOf (← ask (.text r))
  | some .int, [r] => bodyOf (← ask (.integer r))
  | some .float, [r] => bodyOf (← ask (.real r))
  | content, args =>
    if !hasInit && !(args.isEmpty && keywords.isEmpty) then throw .typeError
    return World.emptyBody content

/-- Calling a class converts to it or makes an instance. -/
def construct (ask : Ask) (c : ClassId) (args : List Ref) (keywords : List (String × Ref)) :
    Act Ref := do
  match c with
  | .native n => if keywords.isEmpty then constructNative ask n args else throw .typeError
  | .declared _ =>
    let w ← get
    let init := match w.entryOf? c "__init__" with
      | some (_, .native ..) => none
      | found => found
    let r ← Act.instantiate c (← newContent ask (w.contentClass? c) init.isSome args keywords)
    match init with
    | some found =>
      let f ← bindEntry ask (some r) c found.1 "__init__" found.2
      let _ ← ask (.call f args keywords)
      return r
    | none => return r

def call (ask : Ask) (f : Ref) (args : List Ref) (keywords : List (String × Ref)) : Act Ref := do
  let w ← get
  match w.body f with
  | .routine r => callRoutine ask r args keywords
  | .bound receiver routine => ask (.call routine (receiver :: args) keywords)
  | .partialCall routine => ask (.call routine args keywords)
  | .cls c => construct ask c args keywords
  | _ =>
    match declaredHook? w f "__call__" with
    | some found =>
      let hook ← bindEntry ask (some f) (w.classOf f) found.1 "__call__" found.2
      ask (.call hook args keywords)
    | none => throw .typeError

end Introspect.Dispatch
