import Introspect.Data.Json
import Introspect.Digest.Basic
import Introspect.Reflect.Slot
/-! Answers of a session, and how values stand in them. -/
namespace Introspect.Session

inductive Report where
  | null
  | bool (b : Bool)
  | int (i : Int)
  | text (s : String)
  | list (items : List Report)
  | object (fields : List (String × Report))

namespace Report

def tagged (tag : String) (r : Report) : Report := .object [(tag, r)]

def texts (names : List String) : Report := tagged "list" (.list (names.map .text))

/-- Integers up to this size have a plain form. -/
def plainLimit : Nat := Nat.pow 2 53

def ofInt (i : Int) : Report :=
  if i.natAbs ≤ plainLimit then .int i else tagged "int" (.text (toString i))

def ofDouble (x : Double) : Report := tagged "float" (.text x.text)

def ofBytes (b : List UInt8) : Report := tagged "bytes" (.text (DigestFormat.hexText b))

def ofObject (qname : String) : Report := tagged "obj" (.text qname)

/-! ## Order of members -/

def escapeUnit (n : Nat) : List Char := ['\\', 'u'] ++ Text.hex 4 n

/-- Characters beyond ASCII are escaped, those beyond sixteen bits as a pair. -/
def escapeChar (c : Char) : List Char :=
  if c.toNat < 0x7F then Json.escapeChar c
  else if c.toNat < 0x10000 then escapeUnit c.toNat
  else
    let n := c.toNat - 0x10000
    escapeUnit (0xD800 + n / 0x400) ++ escapeUnit (0xDC00 + n % 0x400)

def quoted (s : String) : List Char := '"' :: s.toList.flatMap escapeChar ++ ['"']

mutual

/-- The text by which members of a set are ordered. -/
def key : Report → List Char
  | .null => "null".toList
  | .bool b => (if b then "true" else "false").toList
  | .int i => (toString i).toList
  | .text s => quoted s
  | .list [] => "[]".toList
  | .list (r :: rest) => '[' :: key r ++ itemKeys rest ++ [']']
  | .object [] => "\x7b\x7d".toList
  | .object ((name, r) :: rest) =>
    '\x7b' :: quoted name ++ ": ".toList ++ key r ++ fieldKeys rest ++ ['\x7d']

def itemKeys : List Report → List Char
  | [] => []
  | r :: rest => ", ".toList ++ key r ++ itemKeys rest

def fieldKeys : List (String × Report) → List Char
  | [] => []
  | (name, r) :: rest => ", ".toList ++ quoted name ++ ": ".toList ++ key r ++ fieldKeys rest

end

def sorted (items : List Report) : List Report :=
  ((items.map fun r => (r.key, r)).mergeSort fun a b => ¬ b.1 < a.1).map (·.2)

/-! ## Values -/

def ofAtom (n : Native) : Atom → Report
  | .none => .null
  | .bool b => .bool b
  | .number (.int i) => ofInt i
  | .number (.float x) => ofDouble x
  | .text s => .text s
  | .bytes b => ofBytes b
  | .number _ => ofObject (ClassInfo.fullName n.info)

section Children

-- The report of a child.
variable (recur : Ref → Except Fault Report)

def ofItems (tag : String) (items : List Ref) : Except Fault Report := do
  return tagged tag (.list (← items.mapM recur))

def ofMembers (tag : String) (items : List Ref) : Except Fault Report := do
  return tagged tag (.list (sorted (← items.mapM recur)))

def ofEntries (entries : List (Ref × Ref)) : Except Fault Report := do
  let pairs ← entries.mapM fun (k, v) => do return Report.list [← recur k, ← recur v]
  return tagged "dict" (.list pairs)

/-- Values of the common native classes show what they hold; of all other objects only the class
shows. -/
def ofRef (w : World) (r : Ref) : Except Fault Report :=
  match w.body r, w.classOf r with
  | .cls c, _ => return tagged "cls" (.text (w.info c).fullName)
  | .descriptor id, _ =>
    return tagged "type" (.text ((w.registry.descriptor? id).elim "" (·.qname)))
  | .atom (.text s), .native .taintedStr => return tagged "tstr" (.text s)
  | .atom a, .native n => return ofAtom n a
  | .sequence items, .native .list => ofItems recur "list" items
  | .sequence items, .native .tuple => ofItems recur "tuple" items
  | .mapping entries, .native .dict => ofEntries recur entries
  | .members items, .native .set => ofMembers recur "set" items
  | .members items, .native .frozenset => ofMembers recur "frozenset" items
  | .box value tainted, .native .scalar => do
    return .object [("scalar", ← recur value), ("tainted", .bool tainted)]
  | _, c => return ofObject (w.info c).fullName

end Children

def within (w : World) : Nat → Ref → Except Fault Report
  | 0, _ => .error .nesting
  | depth + 1, r => ofRef (within w depth) w r

def ofValue (r : Ref) : Act Report := do
  let w ← get
  Act.liftExcept (within w w.nesting r)

/-! ## Plain data -/

/-- A text of a derived class shows its class. -/
def ofPlainText (w : World) (t : Data.Text) : Report :=
  match t.cls with
  | .native .str => .text t.text
  | .native .taintedStr => tagged "tstr" (.text t.text)
  | c => ofObject (w.info c).fullName

mutual

def ofData (w : World) : Data → Report
  | .null => .null
  | .bool b => .bool b
  | .int i => ofInt i
  | .float x => ofDouble x
  | .text t => ofPlainText w t
  | .list items => tagged "list" (.list (ofDataItems w items))
  | .dict entries => tagged "dict" (.list (ofDataEntries w entries))

def ofDataItems (w : World) : List Data → List Report
  | [] => []
  | d :: rest => ofData w d :: ofDataItems w rest

def ofDataEntries (w : World) : List (Data.Text × Data) → List Report
  | [] => []
  | (k, d) :: rest => .list [ofPlainText w k, ofData w d] :: ofDataEntries w rest

end

/-! ## Types, operations and slots -/

def ofType (id : Nat) : Act Report := do return tagged "type" (.text (← Registry.qname id))

def ofTypes (ids : List Nat) : Act Report := do
  return tagged "list" (.list (← ids.mapM ofType))

def ofOperation (op : Operation) : Act Report := do
  let flags := ((← get).flags op).toNat
  return .object [("method", .text (← Registry.operationName op)), ("flags", .int flags)]

def ofOperations (ops : List Operation) : Act Report := do
  return tagged "list" (.list (← ops.mapM ofOperation))

/-- What a slot says of itself; of an operation also whether it has code of its own. -/
def ofSlot (s : Slot) (hasCode : Option Bool) : Act Report := do
  let qname ← s.qname
  let parent ← match s.parent with
    | some id => ofType id
    | none => pure .null
  return .object ([("name", .text s.name), ("qname", .text qname), ("toStr", .text qname),
    ("repr", .text qname), ("parent", parent), ("flags", .int s.flags),
    ("isMethod", .bool hasCode.isSome), ("isPublic", .bool s.isPublic),
    ("isPrivate", .bool s.isPrivate), ("isStatic", .bool s.isStatic),
    ("isClassLevel", .bool s.isClassLevel), ("isAbstract", .bool s.isAbstract),
    ("isOverride", .bool s.isOverride), ("isNative", .bool s.isNative)] ++
    hasCode.toList.map fun b => ("hasCode", .bool b))

def ofOption (r : Option Report) : Report := r.getD .null

/-- A fault shows its kind, and its message if it is one of the library's own. -/
def ofFault (fault : Fault) : Report :=
  match fault.kind?, fault with
  | some kind, fault => .object [("error", .text kind.name), ("message", .text fault.message)]
  | none, .host kind _ => tagged "error" (.text kind.name)
  | none, _ => .null

/-! ## Identities -/

def isHexDigit (c : Char) : Bool := c.isDigit || ('a' ≤ c && c ≤ 'f')

/-- How many digits an identity has at least. -/
def identityDigits : Nat := 6

/-- Hides an identity at the start of what follows an at sign. -/
def hidePart (cs : List Char) : List Char :=
  if (cs.takeWhile isHexDigit).length ≥ identityDigits then
    ['I', 'D'] ++ cs.dropWhile isHexDigit
  else cs

/-- A text with the identities in it hidden. -/
def hidden (s : String) : String :=
  "@".intercalate (match s.splitOn "@" with
    | [] => []
    | first :: rest => first :: rest.map fun part => String.ofList (hidePart part.toList))

end Report

end Introspect.Session
