import Introspect.Fault
import Introspect.Number.Numeral
import Introspect.Text.Utf8
import Introspect.Text.Quoted
/-! Plain values, their texts, and their comparison. -/
namespace Introspect

inductive Atom where
  | none
  | bool (b : Bool)
  | number (n : Number)
  | text (s : String)
  | bytes (content : List UInt8)
deriving DecidableEq

namespace Atom

def int (i : Int) : Atom := .number (.int i)

/-- A truth value counts as zero or one. -/
def number? : Atom → Option Number
  | .bool b => some (.int (if b then 1 else 0))
  | .number n => some n
  | _ => Option.none

def boolText (b : Bool) : String := if b then "True" else "False"

/-- Integers with too many digits have no text. -/
def isWritable : Number → Bool
  | .int i => (Numeral.intText? i).isSome
  | .fraction num den => (Numeral.intText? num).isSome && (Numeral.intText? den).isSome
  | _ => true

def written (write : Number → String) (n : Number) : Except Fault String :=
  if isWritable n then .ok (write n) else .error .valueError

/-- The text that stands for a value among texts; bytes are read as UTF-8. -/
def plainText : Atom → Except Fault String
  | .none => .ok "None"
  | .bool b => .ok (boolText b)
  | .number n => written Number.text n
  | .text s => .ok s
  | .bytes b => .ok (Text.Utf8.decodeReplacing b)

/-- A display shows quotes and escapes. -/
def display : Atom → Except Fault String
  | .none => .ok "None"
  | .bool b => .ok (boolText b)
  | .number n => written Number.display n
  | .text s => .ok (Text.quoted s)
  | .bytes b => .ok (Text.quotedBytes b)

/-- As a display, but texts stand for themselves and numbers show their value alone. -/
def asText : Atom → Except Fault String
  | .number n => written Number.text n
  | .text s => .ok s
  | a => a.display

def isTruthy : Atom → Bool
  | .none => false
  | .bool b => b
  | .number n => n.isNonzero
  | .text s => s ≠ ""
  | .bytes b => b ≠ []

/-! ## Comparison -/

def looksNumeric : Atom → Bool
  | .none => false
  | .bool _ | .number _ => true
  | .text s => Numeral.looksNumeric s
  | .bytes b => Numeral.looksNumeric (Text.Utf8.decodeReplacing b)

/-- The number that a value or its numeral stands for. A numeral may be recognised and yet have no
number. -/
def toNumber : Atom → Except Fault Number
  | .bool b => .ok (.int (if b then 1 else 0))
  | .number n => .ok n
  | .text s => (Numeral.read? s).elim (.error .valueError) .ok
  | .bytes b => (Numeral.read? (Text.Utf8.decodeReplacing b)).elim (.error .valueError) .ok
  | .none => .error .typeError

def isSignaling : Number → Bool
  | .decimal (.nan _ true _) => true
  | _ => false

/-- Numbers that a decimal is compared with by value. To others it is unequal. -/
def meetsDecimals : Number → Bool
  | .complex _ im => !im.isNonzero
  | .declared _ => false
  | _ => true

/-- Exact equality of numbers; a signaling number that is none cannot be compared by value. -/
def numbersEqual (x y : Number) : Except Fault Bool :=
  if isSignaling x && meetsDecimals y || isSignaling y && meetsDecimals x then
    .error (.host .invalidOperation "")
  else .ok (x.same y)

inductive Comparison where
  | settled (equal : Bool)
  | byText
deriving DecidableEq

/-- Nothing equals only itself, and bytes compare with bytes as they are. Two values that look
numeric compare as numbers, where not being a number counts as one value. All else compares by
text. -/
def compare : Atom → Atom → Except Fault Comparison
  | .none, b => .ok (.settled (b = .none))
  | _, .none => .ok (.settled false)
  | .bytes x, .bytes y => .ok (.settled (x = y))
  | a, b =>
    if a.looksNumeric && b.looksNumeric then do
      let x ← a.toNumber
      let y ← b.toNumber
      if x.isFloatNan && y.isFloatNan then return .settled true
      return .settled (← numbersEqual x y)
    else .ok .byText

def same (a b : Atom) : Except Fault Bool := do
  match ← a.compare b with
  | .settled equal => return equal
  | .byText => return (← a.plainText) == (← b.plainText)

/-- Equality in the sense of the host: numbers by value, texts and bytes as they are. -/
def equalValue (a b : Atom) : Except Fault Bool :=
  match a.number?, b.number? with
  | some x, some y => numbersEqual x y
  | Option.none, Option.none => .ok (a = b)
  | _, _ => .ok false

end Atom

end Introspect
