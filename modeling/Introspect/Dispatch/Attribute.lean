import Introspect.Dispatch.Request
/-! Attributes of objects and classes, and operations bound to what they were taken from. -/
namespace Introspect.Dispatch

def bound (receiver routine : Ref) : Act Ref := do
  let w ← get
  let n := if w.classOf routine = .native .function then .boundMethod else .builtinFunction
  Act.fresh n (.bound receiver routine)

/-- Routines of classes bind to a receiver; the free routines of the host do not. -/
def binds (w : World) (r : Ref) : Bool :=
  match w.body r with
  | .routine .length | .routine .magnitude => false
  | .routine _ => true
  | _ => false

/-- What data of a native class shows. -/
def nativeData (r : Ref) (cls : ClassId) (key : String) : Act Ref := do
  let w ← get
  match key, w.body r with
  | "__class__", _ => return .cls cls
  | "__name__", .routine (.function i) => Act.text ((w.function? i).elim "" (·.name))
  | "__name__", .routine .length => Act.text "len"
  | "__name__", .routine .magnitude => Act.text "abs"
  | "__name__", .routine .zero => Act.text "f0"
  | "__name__", .routine .one => Act.text "f1"
  | "__name__", .routine (.native _ name) | "__name__", .bound _ (.routine (.native _ name)) =>
    Act.text name
  | "__self__", .bound receiver _ => return receiver
  | "__func__", .bound _ f => return f
  | "args", .error message _ => Act.tuple [message]
  | "_numerator", .atom (.number (.fraction num _)) => Act.atom (Atom.int num)
  | "_denominator", .atom (.number (.fraction _ den)) => Act.atom (Atom.int den)
  | _, _ => return .atom .none

/-- Takes a namespace entry from a receiver or, without one, from a class. -/
def bindEntry (ask : Ask) (receiver : Option Ref) (cls holder : ClassId) (key : String) :
    Entry → Act Ref
  | .value f => do
    match receiver with
    | some r => if binds (← get) f then bound r f else return f
    | none => return f
  | .classLevel f => bound (.cls cls) f
  | .static f => return f
  | .property f =>
    match receiver with
    | some r => ask (.call (.routine (.function f)) [r] [])
    | none => return .entry holder key
  | .slot name =>
    match receiver with
    | some r => do
      match (← get).slot? r holder name with
      | some value => return value
      | none => throw .attributeError
    | none => return .entry holder key
  | .native n (.operation .receiver _ _) =>
    match receiver with
    | some r => bound r (.routine (.native n key))
    | none => return .routine (.native n key)
  | .native n (.operation .owner _ _) => bound (.cls cls) (.routine (.native n key))
  | .native n (.operation .nothing _ _) => return .routine (.native n key)
  | .native _ .data =>
    match receiver with
    | some r => nativeData r cls key
    | none => return .atom .none

/-- Properties and slots come before the attribute dictionary. -/
def comesFirst : Entry → Bool
  | .property _ | .slot _ => true
  | _ => false

def classData? (w : World) (c : ClassId) : String → Option (Act Ref)
  | "__name__" => some (Act.text (w.info c).name)
  | "__qualname__" => some (Act.text (w.info c).qualname)
  | "__module__" => some ((w.info c).modName.elim (return .atom .none) Act.text)
  | "__class__" => some (return .cls (.native .type))
  | "__mro__" => some (Act.tuple ((w.info c).ancestry.map .cls))
  | "__bases__" => some (Act.tuple ((w.info c).bases.map .cls))
  | _ => none

def classAttribute (ask : Ask) (c : ClassId) (name : String) : Act Ref := do
  let w ← get
  match classData? w c name with
  | some data => data
  | none =>
    match w.entryOf? c name with
    | some (holder, e) => bindEntry ask none c holder name e
    | none =>
      match w.entryOf? (.native .type) name with
      | some (holder, e) => bindEntry ask (some (.cls c)) (.native .type) holder name e
      | none => throw .attributeError

/-- A bound operation has the attributes of the routine, too. -/
def instanceAttribute (ask : Ask) (r : Ref) (name : String) : Act Ref := do
  let w ← get
  let c := w.classOf r
  let own := ((w.dictionary? r).getD []).lookup name
  match w.entryOf? c name, own with
  | some (holder, e), some value =>
    if comesFirst e then bindEntry ask (some r) c holder name e else return value
  | some (holder, e), none => bindEntry ask (some r) c holder name e
  | none, some value => return value
  | none, none =>
    match w.body r with
    | .bound _ f => ask (.attribute f name)
    | _ => throw .attributeError

def attributeOf (ask : Ask) (r : Ref) (name : String) : Act Ref :=
  match r with
  | .cls c => classAttribute ask c name
  | _ => instanceAttribute ask r name

/-- The receiver of a binding; nothing is none. -/
def receiver? : Ref → Option Ref
  | .atom .none => none
  | r => some r

/-- Calls a hook of a class on an object, if the class has one that is no native operation. -/
def declaredHook? (w : World) (r : Ref) (name : String) : Option (ClassId × Entry) :=
  match w.entryOf? (w.classOf r) name with
  | some (_, .native ..) => none
  | found => found

/-- The native class whose operation of the name an object uses. -/
def nativeHook? (w : World) (r : Ref) (name : String) : Option Native :=
  match w.entryOf? (w.classOf r) name with
  | some (_, .native n (.operation ..)) => some n
  | _ => none

def callHook (ask : Ask) (r : Ref) (name : String) (found : ClassId × Entry) (args : List Ref) :
    Act Ref := do
  let w ← get
  let f ← bindEntry ask (some r) (w.classOf r) found.1 name found.2
  ask (.call f args [])

end Introspect.Dispatch
