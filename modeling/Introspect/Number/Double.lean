/-! Binary floating-point numbers of 53 bits, with exact rounding. -/
namespace Introspect

/-- A finite number is `±m · 2^q` with `m < 2^53` and `-1074 ≤ q`. -/
inductive Double where
  | nan
  | infinite (negative : Bool)
  | finite (negative : Bool) (m : Nat) (q : Int)
deriving DecidableEq

namespace Double

/-- The quotient to the nearest natural number, a half to the even one. -/
def roundQuotient (a b : Nat) : Nat :=
  let d := a / b
  let r := a % b
  if 2 * r > b ∨ (2 * r = b ∧ d % 2 = 1) then d + 1 else d

/-- The exponent `e` with `2^e ≤ num / den < 2^(e + 1)`, for positive `num` and `den`. -/
def binaryExponent (num den : Nat) : Int :=
  let e : Int := (num.log2 : Int) - den.log2
  if num * Nat.pow 2 (-e).toNat ≥ den * Nat.pow 2 e.toNat then e else e - 1

/-- The number nearest to `±num / den`, a tie going to the even one. -/
def ofRatio (negative : Bool) (num den : Nat) : Double :=
  if num = 0 then .finite negative 0 (-1074)
  else
    let q := max (binaryExponent num den - 52) (-1074)
    let m := roundQuotient (num * Nat.pow 2 (-q).toNat) (den * Nat.pow 2 q.toNat)
    let (m, q) := if m = Nat.pow 2 53 then (Nat.pow 2 52, q + 1) else (m, q)
    if q > 971 then .infinite negative else .finite negative m q

/-- The number nearest to `±digits · 10^exponent`. An exponent far outside the range is settled
without its power. -/
def ofDecimal (negative : Bool) (digits : Nat) (exponent : Int) : Double :=
  let size : Int := (Nat.toDigits 10 digits).length + exponent
  if digits = 0 ∨ size < -400 then .finite negative 0 (-1074)
  else if size > 400 then .infinite negative
  else ofRatio negative (digits * Nat.pow 10 exponent.toNat) (Nat.pow 10 (-exponent).toNat)

def ofInt (i : Int) : Double := ofRatio (i < 0) i.natAbs 1

def isNan : Double → Bool
  | .nan => true
  | _ => false

/-- Differs from both zeros; true of NaN. -/
def isNonzero : Double → Bool
  | .finite _ m _ => m ≠ 0
  | _ => true

/-- The value of `±m · 2^q`. -/
def finiteValue (negative : Bool) (m : Nat) (q : Int) : Rat :=
  let size : Rat := mkRat (m * Nat.pow 2 q.toNat : Nat) (Nat.pow 2 (-q).toNat)
  if negative then -size else size

/-- The whole part of `±m · 2^q`. -/
def finiteTruncate (negative : Bool) (m : Nat) (q : Int) : Int :=
  let size : Int := (m * Nat.pow 2 q.toNat / Nat.pow 2 (-q).toNat : Nat)
  if negative then -size else size

end Double

end Introspect
