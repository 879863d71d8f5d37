import Introspect.Data.Basic
import Introspect.Reflect.Shape
/-!
Objects lowered to plain data. An object may supply its own form; otherwise its public fields stand
for it. What cannot be lowered are routines and objects met again inside themselves.
-/
namespace Introspect.Lower

open Dispatch

/-- The method by which an object supplies its own form. -/
def formMethod : String := "to_json"

def doubleOf (r : Ref) : Act Data := do
  let x ← ask (.real r)
  match (← get).body x with
  | .atom (.number (.float x)) => return .float x
  | _ => throw .typeError

def intOf (r : Ref) : Act Data := do
  let i ← ask (.integer r)
  match (← get).body i with
  | .atom (.number (.int i)) => return .int i
  | _ => throw .typeError

/-- What a conversion to text answers. A text of a derived class keeps its class. -/
def converted (r : Ref) : Act Data.Text := do
  let s ← ask (.text r)
  return ⟨← Ask.content s, (← get).classOf s⟩

/-- Integers and real numbers stay numbers; other numbers become their texts. A number of a declared class is
real if its class says so. -/
def atomData (r : Ref) : Atom → Act Data
  | .none => return .null
  | .bool b => return .bool b
  | .number (.int _) => intOf r
  | .number (.float _) | .number (.fraction ..) => doubleOf r
  | .number (.declared _) => do
    let w ← get
    if w.isSubclass (w.classOf r) (.native .realNumeric) then doubleOf r else return .text (← converted r)
  | .number _ => do return .text (← converted r)
  | .text s => return .text (.plain s)
  | .bytes b => return .text (.plain (Text.Utf8.decodeReplacing b))

/-- The key that an object becomes. -/
def key (k : Ref) : Act Data.Text := do
  match (← get).atom? k with
  | some (.text s) => return .plain s
  | some .none => return .plain "null"
  | some (.bool b) => return .plain (if b then "true" else "false")
  | some (.bytes b) => return .plain (Text.Utf8.decodeReplacing b)
  | _ => converted k

/-- Members in the order of their displays. -/
def byDisplay (items : List Data) : Except Fault (List Data) := do
  let shown ← items.mapM fun d => do return (← d.display, d)
  return (shown.mergeSort fun a b => a.1 ≤ b.1).map (·.2)

section Children

-- Lowers a child below the given active objects.
variable (recur : List Ref → Ref → Act Data)

def entries (active : List Ref) : List (Ref × Ref) → Act (List (Data.Text × Data))
  | [] => return []
  | (k, v) :: rest => do
    let k ← key k
    let d ← recur active v
    return (k, d) :: (← entries active rest)

def items (active : List Ref) : List Ref → Act (List Data)
  | [] => return []
  | r :: rest => do
    let d ← recur active r
    return d :: (← items active rest)

def publicFields (active : List Ref) : List (String × Ref) → Act (List (Data.Text × Data))
  | [] => return []
  | (name, r) :: rest => do
    if name.startsWith "_" then publicFields active rest
    else
      let d ← recur active r
      return (.plain name, d) :: (← publicFields active rest)

def content (active : List Ref) (r : Ref) : Act Data := do
  let w ← get
  match w.body r with
  | .mapping pairs => return .dict (Data.ofEntries (← entries recur active pairs))
  | .members members => return .list (← Act.liftExcept (byDisplay (← items recur active members)))
  | _ =>
    match w.items? r with
    | some members => return .list (← items recur active members)
    | none => return .dict (Data.ofEntries (← publicFields recur active (← fields r)))

def reference (active : List Ref) (r : Ref) : Act Data := do
  match ← ask.attribute? r formMethod with
  | some hook =>
    if isCallable (← get) hook then recur active (← ask (.call hook [] []))
    else content recur active r
  | none => content recur active r

def lower (active : List Ref) (r : Ref) : Act Data := do
  let w ← get
  match w.body r with
  | .atom a => atomData r a
  | .box value _ => recur active value
  | .cls c => return .text (.plain (w.info c).fullName)
  | .routine _ | .bound .. | .partialCall _ | .methodWrapper =>
    throw (.notSerializable (← Registry.qnameOf r))
  | _ =>
    if active.contains r then throw (.cyclic (← Registry.qnameOf r))
    reference recur (r :: active) r

end Children

/-- Lowers values that nest at most `depth` deep. -/
def within : Nat → List Ref → Ref → Act Data
  | 0, _, _ => throw .nesting
  | depth + 1, active, r => lower (within depth) active r

def encode (r : Ref) : Act Data := do within (← get).nesting [] r

end Introspect.Lower
