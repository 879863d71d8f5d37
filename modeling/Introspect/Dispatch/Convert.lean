import Introspect.Dispatch.Attribute
/-! Conversions of objects to integers, to floating-point numbers and to truth values. -/
namespace Introspect.Dispatch

/-! ## Integers -/

def truncate : Double → Except Fault Int
  | .nan => .error .valueError
  | .infinite _ => .error .overflow
  | .finite negative m q => .ok (Double.finiteTruncate negative m q)

def integerOfNumber : Number → Except Fault Int
  | .int i => .ok i
  | .float x => truncate x
  | .decimal (.nan ..) => .error .valueError
  | .decimal (.infinite _) => .error .overflow
  | .decimal (.finite negative c e) =>
    let size : Int := (c * Nat.pow 10 e.toNat / Nat.pow 10 (-e).toNat : Nat)
    .ok (if negative then -size else size)
  | .fraction num den => .ok (Int.tdiv num den)
  | .complex .. | .declared _ => .error .typeError

def integerOfAtom : Atom → Except Fault Int
  | .none => .error .typeError
  | .bool b => .ok (if b then 1 else 0)
  | .number n => integerOfNumber n
  | .text s => (Numeral.readInt? s).elim (.error .valueError) .ok
  | .bytes b => (Numeral.readInt? (String.ofList (Text.latin1 b))).elim (.error .valueError) .ok

/-- The result of a hook that has to answer an integer. -/
def expectInteger (r : Ref) : Act Ref := do
  match (← get).body r with
  | .atom (.number (.int i)) => Act.atom (Atom.int i)
  | .atom (.bool b) => Act.atom (Atom.int (if b then 1 else 0))
  | _ => throw .typeError

/-- What an index hook answers; without one, what the content stands for. -/
def indexOr (ask : Ask) (r : Ref) (content : Act Ref) : Act Ref := do
  match declaredHook? (← get) r "__index__" with
  | some found => expectInteger (← callHook ask r "__index__" found [])
  | none => content

def integerOf (a : Atom) : Act Ref := do Act.atom (Atom.int (← Act.liftExcept (integerOfAtom a)))

/-- Numbers convert themselves, other than those of declared classes; any other object is asked for its
index first. -/
def integer (ask : Ask) (r : Ref) : Act Ref := do
  let w ← get
  match declaredHook? w r "__int__" with
  | some found => expectInteger (← callHook ask r "__int__" found [])
  | none =>
    match w.body r with
    | .atom (.number (.declared _)) => indexOr ask r (throw .typeError)
    | .atom (.number n) => integerOf (.number n)
    | .box value _ => ask (.integer value)
    | .atom a => indexOr ask r (integerOf a)
    | .byteArray b => indexOr ask r (integerOf (.bytes b))
    | _ => indexOr ask r (throw .typeError)

/-! ## Floating-point numbers -/

def doubleOfRatio (num : Int) (den : Nat) : Except Fault Double :=
  match Double.ofRatio (num < 0) num.natAbs den with
  | .infinite _ => .error .overflow
  | x => .ok x

def doubleOfNumber : Number → Except Fault Double
  | .int i => doubleOfRatio i 1
  | .float x => .ok x
  | .decimal (.nan _ signaling _) => if signaling then .error .valueError else .ok .nan
  | .decimal (.infinite negative) => .ok (.infinite negative)
  | .decimal (.finite negative c e) => .ok (.ofDecimal negative c e)
  | .fraction num den => doubleOfRatio num den
  | .complex .. | .declared _ => .error .typeError

def doubleOfAtom : Atom → Except Fault Double
  | .none => .error .typeError
  | .bool b => .ok (.ofInt (if b then 1 else 0))
  | .number n => doubleOfNumber n
  | .text s => (Numeral.readDouble? s).elim (.error .valueError) .ok
  | .bytes b => (Numeral.readDouble? (String.ofList (Text.latin1 b))).elim (.error .valueError) .ok

def newDouble (x : Double) : Act Ref := Act.atom (.number (.float x))

def realOf (a : Atom) : Act Ref := do newDouble (← Act.liftExcept (doubleOfAtom a))

def realIndexOr (ask : Ask) (r : Ref) (content : Act Ref) : Act Ref := do
  match declaredHook? (← get) r "__index__" with
  | some found =>
    let i ← expectInteger (← callHook ask r "__index__" found [])
    match (← get).atom? i with
    | some a => realOf a
    | none => throw .typeError
  | none => content

def real (ask : Ask) (r : Ref) : Act Ref := do
  let w ← get
  match declaredHook? w r "__float__" with
  | some found =>
    let value ← callHook ask r "__float__" found []
    match (← get).body value with
    | .atom (.number (.float x)) => newDouble x
    | _ => throw .typeError
  | none =>
    match w.body r with
    | .atom (.number (.declared _)) => realIndexOr ask r (throw .typeError)
    | .atom (.number n) => realOf (.number n)
    | .box value _ => ask (.real value)
    | .atom a => realIndexOr ask r (realOf a)
    | .byteArray b => realIndexOr ask r (realOf (.bytes b))
    | _ => realIndexOr ask r (throw .typeError)

/-! ## Truth -/

def bodyTruth : Body → Bool
  | .atom a => a.isTruthy
  | .sequence items | .members items => !items.isEmpty
  | .range start stop step => if step < 0 then stop < start else start < stop
  | .byteArray b => !b.isEmpty
  | .mapping entries => !entries.isEmpty
  | _ => true

/-- Whether a length hook answers a length other than zero; without one, what the content says. -/
def lengthOr (ask : Ask) (r : Ref) (content : Bool) : Act Ref := do
  match declaredHook? (← get) r "__len__" with
  | some found =>
    let size ← expectInteger (← callHook ask r "__len__" found [])
    match (← get).body size with
    | .atom (.number (.int i)) =>
      if i < 0 then throw .valueError else return .atom (.bool (i ≠ 0))
    | _ => throw .typeError
  | none => return .atom (.bool content)

/-- A truth hook comes before a length hook, and both before the content. Numbers have no length, other
than those of declared classes. -/
def truth (ask : Ask) (r : Ref) : Act Ref := do
  let w ← get
  match declaredHook? w r "__bool__" with
  | some found =>
    match ← callHook ask r "__bool__" found [] with
    | .atom (.bool b) => return .atom (.bool b)
    | _ => throw .typeError
  | none =>
    match w.body r with
    | .box value _ => ask (.truth value)
    | .atom (.number (.declared _)) => lengthOr ask r true
    | .atom (.number n) => return .atom (.bool n.isNonzero)
    | body => lengthOr ask r (bodyTruth body)

end Introspect.Dispatch
