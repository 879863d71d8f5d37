import Introspect.Text.Blank
import Introspect.Text.Digit
import Introspect.Text.Case
/-! Decimal numbers that keep their trailing zeros. -/
namespace Introspect

/-- A finite number is `±coefficient · 10^exponent`. -/
inductive Decimal where
  | nan (negative signaling : Bool) (payload : String)
  | infinite (negative : Bool)
  | finite (negative : Bool) (coefficient : Nat) (exponent : Int)
deriving DecidableEq

namespace Decimal

def sign (negative : Bool) : String := if negative then "-" else ""

/-- Positional as long as the exponent is not positive and at most six zeros follow the point;
otherwise one digit before the point and a signed exponent. -/
def text : Decimal → String
  | .nan negative signaling payload => sign negative ++ (if signaling then "sNaN" else "NaN") ++ payload
  | .infinite negative => sign negative ++ "Infinity"
  | .finite negative coefficient exponent =>
    let digits := (toString coefficient).toList
    let left : Int := digits.length + exponent
    let point : Int := if exponent ≤ 0 ∧ left > -6 then left else 1
    let (whole, part) :=
      if point ≤ 0 then (['0'], '.' :: (List.replicate (-point).toNat '0' ++ digits))
      else if point ≥ digits.length then
        (digits ++ List.replicate (point - digits.length).toNat '0', [])
      else (digits.take point.toNat, '.' :: digits.drop point.toNat)
    let power := left - point
    let tail := if power = 0 then "" else
      "E" ++ (if power < 0 then "-" else "+") ++ toString power.natAbs
    sign negative ++ String.ofList (whole ++ part) ++ tail

/-- The digits at the front with their value and number, and what follows them. -/
def readDigits : List Char → Nat × Nat × List Char
  | [] => (0, 0, [])
  | c :: rest =>
    match Text.digitValue? c with
    | none => (0, 0, c :: rest)
    | some d =>
      let (value, count, rest) := readDigits rest
      (d * Nat.pow 10 count + value, count + 1, rest)

def readSign : List Char → Bool × List Char
  | '-' :: rest => (true, rest)
  | '+' :: rest => (false, rest)
  | rest => (false, rest)

/-- An optional exponent at the end of the text. -/
def readExponent? : List Char → Option Int
  | [] => some 0
  | c :: rest =>
    if c = 'e' ∨ c = 'E' then
      let (negative, rest) := readSign rest
      match readDigits rest with
      | (value, _ + 1, []) => some (if negative then -(value : Int) else value)
      | _ => none
    else none

/-- The digits after the word for a number that is none, without their leading zeros. -/
def readPayload? (cs : List Char) : Option String :=
  match readDigits cs with
  | (value, _, []) => some (if value = 0 then "" else toString value)
  | _ => none

/-- Blanks around the number and underscores anywhere do not count. -/
def ofText? (s : String) : Option Decimal :=
  let (negative, cs) := readSign ((Text.trimBy Text.isBlank s.toList).filter (· ≠ '_'))
  let word := Text.lowerWord (String.ofList cs)
  if word = "inf" ∨ word = "infinity" then some (.infinite negative)
  else if word.startsWith "nan" then
    (readPayload? (cs.drop 3)).map (.nan negative false)
  else if word.startsWith "snan" then
    (readPayload? (cs.drop 4)).map (.nan negative true)
  else
    let (whole, count, rest) := readDigits cs
    let (value, places, more, rest) := match rest with
      | '.' :: rest =>
        let (part, places, rest) := readDigits rest
        (whole * Nat.pow 10 places + part, places, places, rest)
      | rest => (whole, 0, 0, rest)
    if count + more = 0 then none
    else (readExponent? rest).map fun e => .finite negative value (e - places)

end Decimal

end Introspect
