import Introspect.Dispatch.Attribute
/-! Texts and displays of objects. -/
namespace Introspect.Dispatch

def identity : String := "@ID"

/-- The qualified name of a class as its displays write it. -/
def displayName (w : World) (c : ClassId) : String :=
  let info := w.info c
  match info.modName with
  | some m => if m = "builtins" then info.name else m ++ "." ++ info.qualname
  | none => info.name

/-! ## Displays -/

def separated (parts : List String) : String := ", ".intercalate parts

def displayAll (ask : Ask) (active : List Ref) (items : List Ref) : Act (List String) :=
  items.mapM (ask.displayOf active)

/-- Entries as `key: value` or as pairs. -/
def displayEntries (ask : Ask) (active : List Ref) (asPairs : Bool) (entries : List (Ref × Ref)) :
    Act String := do
  let parts ← entries.mapM fun (k, v) => do
    let k ← ask.displayOf active k
    let v ← ask.displayOf active v
    return if asPairs then "(" ++ k ++ ", " ++ v ++ ")" else k ++ ": " ++ v
  return separated parts

def braces (s : String) : String := "\x7b" ++ s ++ "\x7d"

def brackets (s : String) : String := "[" ++ s ++ "]"

/-- A container that is being displayed already is shown by dots. -/
def displaySequence (ask : Ask) (active : List Ref) (n : Native) (r : Ref) (items : List Ref) :
    Act String := do
  let name := ((← get).info ((← get).classOf r)).name
  match n with
  | .tuple =>
    if active.contains r then return "(...)"
    match ← displayAll ask (r :: active) items with
    | [part] => return "(" ++ part ++ ",)"
    | parts => return "(" ++ separated parts ++ ")"
  | .deque =>
    if active.contains r then return "[...]"
    return name ++ "(" ++ brackets (separated (← displayAll ask (r :: active) items)) ++ ")"
  | _ =>
    if active.contains r then return "[...]"
    return brackets (separated (← displayAll ask (r :: active) items))

def displayMapping (ask : Ask) (active : List Ref) (n : Native) (r : Ref)
    (entries : List (Ref × Ref)) : Act String := do
  let name := ((← get).info ((← get).classOf r)).name
  match n with
  | .orderedDict =>
    if active.contains r then return "..."
    if entries.isEmpty then return name ++ "()"
    return name ++ "(" ++ brackets (← displayEntries ask (r :: active) true entries) ++ ")"
  | _ =>
    let inner ← if active.contains r then pure "..." else
      displayEntries ask (r :: active) false entries
    match n with
    | .defaultDict => return name ++ "(<class 'int'>, " ++ braces inner ++ ")"
    | .mappingProxy => return "mappingproxy(" ++ braces inner ++ ")"
    | _ => return braces inner

def displayMembers (ask : Ask) (active : List Ref) (n : Native) (r : Ref) (items : List Ref) :
    Act String := do
  let name := ((← get).info ((← get).classOf r)).name
  if n = .dictKeys then
    if active.contains r then return "..."
    return "dict_keys(" ++ brackets (separated (← displayAll ask (r :: active) items)) ++ ")"
  if active.contains r then return name ++ "(...)"
  if items.isEmpty then return name ++ "()"
  let inner := braces (separated (← displayAll ask (r :: active) items))
  if name = "set" then return inner else return name ++ "(" ++ inner ++ ")"

def displayRange (start stop step : Int) : String :=
  "range(" ++ separated ([start, stop] ++ (if step = 1 then [] else [step]) |>.map toString) ++ ")"

def objectDisplay (w : World) (r : Ref) : String :=
  "<" ++ displayName w (w.classOf r) ++ " object at " ++ identity ++ ">"

/-- The display of a plain value. A number of a declared class has none of its own. -/
def atomDisplay (w : World) (r : Ref) : Atom → Except Fault String
  | .number (.declared _) => .ok (objectDisplay w r)
  | a => a.display

def displayBody (ask : Ask) (active : List Ref) (n : Native) (r : Ref) : Act String := do
  let w ← get
  match w.body r with
  | .atom a => Act.liftExcept (atomDisplay w r a)
  | .sequence items => displaySequence ask active n r items
  | .mapping entries => displayMapping ask active n r entries
  | .members items => displayMembers ask active n r items
  | .range start stop step => return displayRange start stop step
  | .byteArray b => return (w.info (w.classOf r)).name ++ "(" ++ Text.quotedBuffer b ++ ")"
  | .cls c => return "<class '" ++ displayName w c ++ "'>"
  | .routine .length => return "<built-in function len>"
  | .routine .magnitude => return "<built-in function abs>"
  | .error message _ =>
    return (w.info (w.classOf r)).name ++ "(" ++ (← ask.displayOf active message) ++ ")"
  | _ =>
    match r with
    | .ellipsis => return "Ellipsis"
    | .notImplemented => return "NotImplemented"
    | _ => return objectDisplay w r

/-- Calls a method of an object by name; it has to answer a text. -/
def textFrom (ask : Ask) (r : Ref) (method : String) : Act Ref := do
  let value ← ask (.call (← ask (.attribute r method)) [] [])
  let _ ← Ask.content value
  return value

def display (ask : Ask) (active : List Ref) (r : Ref) : Act Ref := do
  match declaredHook? (← get) r "__repr__" with
  | some found =>
    let value ← callHook ask r "__repr__" found []
    let _ ← Ask.content value
    return value
  | none =>
    match nativeHook? (← get) r "__repr__" with
    | some .obj => textFrom ask r "toStr"
    | some .slot => textFrom ask r "toStr"
    | some n => Act.text (← displayBody ask active n r)
    | none => Act.text (← displayBody ask active .object r)

/-! ## Texts -/

/-- A text marked as tainted. -/
def taintedText (s : String) : Act Ref :=
  Act.fresh .taintedStr (.atom (.text s))

def boxText (ask : Ask) (r : Ref) : Act Ref := do
  match (← get).body r with
  | .box value tainted =>
    let s ← ask (.text value)
    if tainted then taintedText (← Ask.content s) else return s
  | _ => throw .attributeError

def nativeText (ask : Ask) (n : Native) (r : Ref) : Act Ref := do
  let w ← get
  match n, w.body r with
  | .scalar, _ => boxText ask r
  | .obj, _ | .error _, _ => textFrom ask r "toStr"
  | .str, .atom (.text s) => if w.classOf r = .native .str then return r else Act.text s
  | .host .keyError, .error message _ => ask (.display [] message)
  | .host _, .error message _ => ask (.text message)
  | .mappingProxy, .mapping entries => do
    Act.text (braces (← displayEntries ask [r] false entries))
  | .decimal, .atom a | .fraction, .atom a => Act.text (← Act.liftExcept a.asText)
  | _, _ => ask (.display [] r)

def text (ask : Ask) (r : Ref) : Act Ref := do
  match declaredHook? (← get) r "__str__" with
  | some found =>
    let value ← callHook ask r "__str__" found []
    let _ ← Ask.content value
    return value
  | none => nativeText ask ((nativeHook? (← get) r "__str__").getD .object) r

end Introspect.Dispatch
