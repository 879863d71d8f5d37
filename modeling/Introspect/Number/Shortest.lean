import Introspect.Number.Double
/-! The shortest decimal that reads back to a floating-point number, and its layout. -/
namespace Introspect

/-- `digits · 10^exponent`. -/
structure Scientific where
  digits : Nat
  exponent : Int
deriving DecidableEq

namespace Double

/-- Compares `digits · 10^e` with `m · 2^q`. -/
def compareScaled (digits : Nat) (e : Int) (m : Nat) (q : Int) : Ordering :=
  compare (digits * Nat.pow 10 e.toNat * Nat.pow 2 (-q).toNat) (m * Nat.pow 2 q.toNat * Nat.pow 10 (-e).toNat)

/-- The decimal lies among the reals that round to `m · 2^q`: from halfway to the number below to
halfway to the number above, ends included when `m` is even. Below a power of two the gap halves. -/
def readsBack (m : Nat) (q : Int) (d : Scientific) : Bool :=
  let below := if m = Nat.pow 2 52 ∧ q > -1074 then 4 * m - 1 else 4 * m - 2
  let lower := compareScaled d.digits d.exponent below (q - 2)
  let upper := compareScaled d.digits d.exponent (4 * m + 2) (q - 2)
  (lower == .gt || (m % 2 == 0 && lower == .eq)) && (upper == .lt || (m % 2 == 0 && upper == .eq))

/-- The least `k` with `m · 2^q < 10^k`, for positive `m`. -/
def decimalSize (m : Nat) (q : Int) : Int :=
  ((Nat.toDigits 10 (m * Nat.pow 2 q.toNat * Nat.pow 10 400 / Nat.pow 2 (-q).toNat)).length : Int) - 400

/-- The point of the grid of `10^e` that reads back and lies nearest, a tie going to the even
point. -/
def nearestOnGrid? (m : Nat) (q e : Int) : Option Scientific :=
  let d := m * Nat.pow 2 q.toNat * Nat.pow 10 (-e).toNat / (Nat.pow 2 (-q).toNat * Nat.pow 10 e.toNat)
  let low : Scientific := ⟨d, e⟩
  let high : Scientific := ⟨d + 1, e⟩
  match readsBack m q low, readsBack m q high with
  | true, false => some low
  | false, true => some high
  | false, false => none
  | true, true =>
    match compareScaled (2 * d + 1) e (2 * m) q with
    | .gt => some low
    | .lt => some high
    | .eq => some (if d % 2 = 0 then low else high)

def dropZeros : Nat → Scientific → Scientific
  | 0, d => d
  | n + 1, d =>
    if d.digits % 10 = 0 ∧ d.digits ≠ 0 then dropZeros n ⟨d.digits / 10, d.exponent + 1⟩ else d

/-- The fewest digits that read back to `m · 2^q`, and of those the nearest; never more than
seventeen. -/
def shortest (m : Nat) (q : Int) : Scientific :=
  let k := decimalSize m q
  let grids := (List.range 17).map fun (n : Nat) => k - (n : Int) - 1
  dropZeros 20 ((grids.findSome? (nearestOnGrid? m q)).getD ⟨m * Nat.pow 2 q.toNat, 0⟩)

def exponentText (e : Int) : String :=
  let digits := toString e.natAbs
  (if e < 0 then "-" else "+") ++ (if digits.length < 2 then "0" ++ digits else digits)

/-- Written positionally when the leading digit stands from `10^-4` to `10^15`. A whole number ends
in `point`. -/
def layout (point : String) (d : Scientific) : String :=
  let digits := toString d.digits
  let size : Int := digits.length + d.exponent
  if -4 < size ∧ size ≤ 16 then
    if size ≤ 0 then "0." ++ String.ofList (List.replicate (-size).toNat '0') ++ digits
    else if digits.length ≤ size then
      digits ++ String.ofList (List.replicate (size - digits.length).toNat '0') ++ point
    else
      String.ofList (digits.toList.take size.toNat) ++ "." ++
        String.ofList (digits.toList.drop size.toNat)
  else
    let tail := digits.toList.drop 1
    String.ofList (digits.toList.take 1) ++
      (if tail.isEmpty then "" else "." ++ String.ofList tail) ++ "e" ++ exponentText (size - 1)

def sign (negative : Bool) : String := if negative then "-" else ""

def textWith (point : String) : Double → String
  | .nan => "nan"
  | .infinite negative => sign negative ++ "inf"
  | .finite negative m q =>
    sign negative ++ layout point (if m = 0 then ⟨0, 0⟩ else shortest m q)

/-- The shortest text, a whole number ending in `.0`. -/
def text : Double → String := textWith ".0"

end Double

end Introspect
