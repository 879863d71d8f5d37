import Mathlib.Algebra.Order.Field.Power
import Mathlib.Data.Rat.Cast.Order
import Mathlib.Tactic.FieldSimp
import Mathlib.Tactic.Linarith
import Mathlib.Tactic.NormNum.DivMod
import Mathlib.Tactic.Positivity
import Mathlib.Tactic.Ring
import Introspect.Number.Shortest
/-!
The reals that round to a floating-point number. Each number has one form, and a ratio that lies among the
reals of a form rounds to it.
-/
namespace Introspect

/-- The value of `digits · 10^exponent`. -/
def Scientific.value (d : Scientific) : ℚ := d.digits * 10 ^ d.exponent

namespace Double

/-- The one form of a finite number: as many of the 53 bits as the least exponent leaves. -/
structure IsForm (m : Nat) (q : Int) : Prop where
  bits : m < 2 ^ 53
  least : -1074 ≤ q
  most : q ≤ 971
  full : 2 ^ 52 ≤ m ∨ q = -1074

instance (m : Nat) (q : Int) : Decidable (IsForm m q) :=
  decidable_of_iff (m < 2 ^ 53 ∧ -1074 ≤ q ∧ q ≤ 971 ∧ (2 ^ 52 ≤ m ∨ q = -1074))
    ⟨fun ⟨bits, least, most, full⟩ => ⟨bits, least, most, full⟩, fun h => ⟨h.bits, h.least, h.most, h.full⟩⟩

/-- A number in its one form. -/
def IsNormal : Double → Prop
  | .finite _ m q => IsForm m q
  | _ => True

instance : DecidablePred IsNormal
  | .nan => .isTrue trivial
  | .infinite _ => .isTrue trivial
  | .finite _ m q => inferInstanceAs (Decidable (IsForm m q))

/-- Halfway to the number below. Below a power of two the gap halves. -/
def lower (m : Nat) (q : Int) : ℚ :=
  if m = 2 ^ 52 ∧ -1074 < q then (m - 1 / 4) * 2 ^ q else (m - 1 / 2) * 2 ^ q

/-- Halfway to the number above. -/
def upper (m : Nat) (q : Int) : ℚ := (m + 1 / 2) * 2 ^ q

/-- The reals that round to `m · 2^q`: its ends do if `m` is even. -/
structure Rounds (m : Nat) (q : Int) (x : ℚ) : Prop where
  below : lower m q ≤ x
  above : x ≤ upper m q
  ends : x = lower m q ∨ x = upper m q → m % 2 = 0

variable {m d a b num den : Nat} {q e e' : Int} {x : ℚ}

/-! ## Powers -/

/-- A power is a ratio of two natural powers, of which one is 1. -/
theorem zpow_eq_div (b : Nat) (e : Int) : (b : ℚ) ^ e = (Nat.pow b e.toNat : Nat) / (Nat.pow b (-e).toNat : Nat) := by
  obtain ⟨n, rfl | rfl⟩ := e.eq_nat_or_neg
  · simp
  · simp

theorem two_zpow_pos (q : Int) : (0 : ℚ) < 2 ^ q := zpow_pos (by norm_num) q

theorem natCast_pow_pos {b : Nat} (hb : 0 < b) (n : Nat) : (0 : ℚ) < (Nat.pow b n : Nat) := by
  exact_mod_cast Nat.pow_pos hb

theorem two_zpow_add (q : Int) (n : Nat) : (2 : ℚ) ^ (q + n) = 2 ^ n * 2 ^ q := by
  rw [zpow_add₀ (by norm_num), zpow_natCast, mul_comm]

/-- Scaled crosswise by natural powers, two numbers compare as their values do. -/
theorem scaled_lt_iff {m' b' : Nat} (hb : 0 < b) (hb' : 0 < b') :
    m * Nat.pow b e.toNat * Nat.pow b' (-e').toNat < m' * Nat.pow b' e'.toNat * Nat.pow b (-e).toNat ↔
      (m : ℚ) * b ^ e < m' * b' ^ e' := by
  rw [zpow_eq_div, zpow_eq_div, ← mul_div_assoc, ← mul_div_assoc,
    div_lt_div_iff₀ (natCast_pow_pos hb _) (natCast_pow_pos hb' _)]
  exact_mod_cast Iff.rfl

/-- Two numbers are compared as their values are. -/
theorem compareScaled_eq (d : Nat) (e : Int) (m : Nat) (q : Int) :
    compareScaled d e m q = compare ((d : ℚ) * 10 ^ e) (m * 2 ^ q) := by
  have hlt : d * Nat.pow 10 e.toNat * Nat.pow 2 (-q).toNat < m * Nat.pow 2 q.toNat * Nat.pow 10 (-e).toNat ↔
      (d : ℚ) * 10 ^ e < m * 2 ^ q := by exact_mod_cast scaled_lt_iff (by decide) (by decide)
  have hgt : m * Nat.pow 2 q.toNat * Nat.pow 10 (-e).toNat < d * Nat.pow 10 e.toNat * Nat.pow 2 (-q).toNat ↔
      (m : ℚ) * 2 ^ q < d * 10 ^ e := by exact_mod_cast scaled_lt_iff (by decide) (by decide)
  unfold compareScaled
  rcases lt_trichotomy ((d : ℚ) * 10 ^ e) (m * 2 ^ q) with h | h | h
  · rw [compare_lt_iff_lt.mpr h, compare_lt_iff_lt.mpr (hlt.mpr h)]
  · have hne := not_or.mpr ⟨mt hlt.mp h.not_lt, mt hgt.mp h.not_gt⟩
    rw [compare_eq_iff_eq.mpr h, compare_eq_iff_eq.mpr (by omega)]
  · rw [compare_gt_iff_gt.mpr h, compare_gt_iff_gt.mpr (hgt.mpr h)]

/-- The exponent of the power of two below a positive number is unique. -/
theorem exponent_unique (hlow : (2 : ℚ) ^ e ≤ x) (hhigh : x < 2 ^ (e + 1)) (hlow' : (2 : ℚ) ^ e' ≤ x)
    (hhigh' : x < 2 ^ (e' + 1)) : e = e' := by
  have h := (zpow_lt_zpow_iff_right₀ (by norm_num : (1 : ℚ) < 2)).mp (hlow.trans_lt hhigh')
  have h' := (zpow_lt_zpow_iff_right₀ (by norm_num : (1 : ℚ) < 2)).mp (hlow'.trans_lt hhigh)
  omega

theorem binaryExponent_bounds (hnum : 0 < num) (hden : 0 < den) :
    (2 : ℚ) ^ binaryExponent num den ≤ num / den ∧ (num / den : ℚ) < 2 ^ (binaryExponent num den + 1) := by
  have htwo : (2 : ℚ) ≠ 0 := by norm_num
  have hdenpos : (0 : ℚ) < den := by exact_mod_cast hden
  have hbits {n : Nat} (hn : 0 < n) : (2 : ℚ) ^ (n.log2 : Int) ≤ n ∧ (n : ℚ) < 2 ^ ((n.log2 : Int) + 1) := by
    constructor
    · exact_mod_cast Nat.log2_self_le hn.ne'
    · exact_mod_cast Nat.lt_log2_self (n := n)
  obtain ⟨hnlow, hnhigh⟩ := hbits hnum
  obtain ⟨hdlow, hdhigh⟩ := hbits hden
  -- the difference of the lengths is at most one too large
  have hhigh : (num / den : ℚ) < 2 ^ ((num.log2 : Int) - den.log2 + 1) := by
    rw [div_lt_iff₀ hdenpos]
    calc (num : ℚ) < 2 ^ ((num.log2 : Int) - den.log2 + 1) * 2 ^ (den.log2 : Int) := by
          rwa [← zpow_add₀ htwo, show (num.log2 : Int) - den.log2 + 1 + den.log2 = num.log2 + 1 by ring]
      _ ≤ 2 ^ ((num.log2 : Int) - den.log2 + 1) * den := by gcongr
  have hlow : (2 : ℚ) ^ ((num.log2 : Int) - den.log2 - 1) ≤ num / den := by
    rw [le_div_iff₀ hdenpos]
    calc (2 : ℚ) ^ ((num.log2 : Int) - den.log2 - 1) * den
        ≤ 2 ^ ((num.log2 : Int) - den.log2 - 1) * 2 ^ ((den.log2 : Int) + 1) := by gcongr
      _ ≤ num := by
          rwa [← zpow_add₀ htwo, show (num.log2 : Int) - den.log2 - 1 + (den.log2 + 1) = num.log2 by ring]
  have hcompare (e : Int) : num * Nat.pow 2 (-e).toNat ≥ den * Nat.pow 2 e.toNat ↔ (2 : ℚ) ^ e ≤ num / den := by
    have hpow : ((2 : Nat) : ℚ) ^ e = 2 ^ e := by norm_num
    rw [← hpow, zpow_eq_div, div_le_div_iff₀ (natCast_pow_pos (by norm_num) _) hdenpos, mul_comm _ (den : ℚ)]
    exact_mod_cast Iff.rfl
  unfold binaryExponent
  simp only [hcompare]
  split
  · rename_i h
    exact ⟨h, hhigh⟩
  · rename_i h
    rw [show (num.log2 : Int) - den.log2 - 1 + 1 = num.log2 - den.log2 by ring]
    exact ⟨hlow, not_le.mp h⟩

/-! ## Rounding -/

/-- The quotient is the number at most half away, and the even one of two. -/
theorem roundQuotient_eq (hb : 0 < b) (hlow : 2 * b * d ≤ 2 * a + b) (hhigh : 2 * a ≤ 2 * b * d + b)
    (htie : 2 * a + b = 2 * b * d ∨ 2 * a = 2 * b * d + b → d % 2 = 0) : roundQuotient a b = d := by
  have hsplit := Nat.div_add_mod a b
  have hrest := Nat.mod_lt a hb
  have hd : d = a / b ∨ d = a / b + 1 := by
    have hover : b * (2 * d) < b * (2 * (a / b) + 3) := by linarith
    have hunder : b * (2 * (a / b)) ≤ b * (2 * d + 1) := by linarith [Nat.mul_div_le a b]
    have hover := Nat.lt_of_mul_lt_mul_left hover
    have hunder := Nat.le_of_mul_le_mul_left hunder hb
    omega
  unfold roundQuotient
  dsimp only
  rw [mul_assoc 2 b d] at hlow hhigh htie
  generalize a / b = k at hsplit hd ⊢
  generalize a % b = r at hsplit hrest ⊢
  rcases hd with rfl | rfl
  · generalize b * d = p at *
    rw [if_neg (by omega)]
  · rw [Nat.mul_succ] at hlow hhigh htie
    generalize b * k = p at *
    rw [if_pos (by omega)]

/-- The same of a ratio that is first scaled by a power of two. -/
theorem roundQuotient_scaled (hden : 0 < den) (hlow : ((d : ℚ) - 1 / 2) * 2 ^ q ≤ num / den)
    (hhigh : (num / den : ℚ) ≤ (d + 1 / 2) * 2 ^ q)
    (htie : (num / den : ℚ) = (d - 1 / 2) * 2 ^ q ∨ (num / den : ℚ) = (d + 1 / 2) * 2 ^ q → d % 2 = 0) :
    roundQuotient (num * Nat.pow 2 (-q).toNat) (den * Nat.pow 2 q.toNat) = d := by
  have hpow : (2 : ℚ) ^ q = _ := zpow_eq_div 2 q
  have hup := natCast_pow_pos (by norm_num : 0 < 2) q.toNat
  have hdown := natCast_pow_pos (by norm_num : 0 < 2) (-q).toNat
  rw [hpow] at hlow hhigh htie
  generalize Nat.pow 2 q.toNat = up at hlow hhigh htie hup ⊢
  generalize Nat.pow 2 (-q).toNat = down at hlow hhigh htie hdown ⊢
  have hdenpos : (0 : ℚ) < den := by exact_mod_cast hden
  have hb : 0 < den * up := Nat.mul_pos hden (by exact_mod_cast hup)
  rw [← mul_div_assoc, div_le_div_iff₀ hdown hdenpos] at hlow
  rw [← mul_div_assoc, div_le_div_iff₀ hdenpos hdown] at hhigh
  rw [← mul_div_assoc, ← mul_div_assoc, div_eq_div_iff hdenpos.ne' hdown.ne', div_eq_div_iff hdenpos.ne' hdown.ne'] at htie
  have hlow : (2 * (den * up) * d : ℚ) ≤ 2 * (num * down) + den * up := by linarith
  have hhigh : (2 * (num * down) : ℚ) ≤ 2 * (den * up) * d + den * up := by linarith
  refine roundQuotient_eq hb (by exact_mod_cast hlow) (by exact_mod_cast hhigh) fun h => htie (h.imp (fun h => ?_) fun h => ?_)
  · have h : (2 * (num * down) + den * up : ℚ) = 2 * (den * up) * d := by exact_mod_cast h
    linarith
  · have h : (2 * (num * down) : ℚ) = 2 * (den * up) * d + den * up := by exact_mod_cast h
    linarith

namespace Rounds

theorem half_le (h : Rounds m q x) : ((m : ℚ) - 1 / 2) * 2 ^ q ≤ x := by
  refine le_trans ?_ h.below
  unfold lower
  split
  · exact mul_le_mul_of_nonneg_right (by linarith) (two_zpow_pos q).le
  · exact le_rfl

theorem even_of_tie (h : Rounds m q x) (htie : x = (m - 1 / 2) * 2 ^ q ∨ x = (m + 1 / 2) * 2 ^ q) : m % 2 = 0 := by
  refine h.ends (htie.imp_left fun hx => le_antisymm ?_ h.below)
  rw [hx]
  unfold lower
  split
  · exact mul_le_mul_of_nonneg_right (by linarith) (two_zpow_pos q).le
  · exact le_rfl

theorem pos (h : Rounds m q x) (hm : 0 < m) : 0 < x := by
  have hm : (1 : ℚ) ≤ m := by exact_mod_cast hm
  exact lt_of_lt_of_le (mul_pos (by linarith) (two_zpow_pos q)) h.half_le

theorem lt_pow (h : Rounds m q x) (hform : IsForm m q) : x < 2 ^ (q + 53) := by
  have hm : (m : ℚ) + 1 ≤ 2 ^ 53 := by exact_mod_cast hform.bits
  calc x ≤ (m + 1 / 2) * 2 ^ q := h.above
    _ < 2 ^ 53 * 2 ^ q := mul_lt_mul_of_pos_right (by linarith) (two_zpow_pos q)
    _ = 2 ^ (q + 53) := (two_zpow_add q 53).symm

/-- What lies below all numbers with the exponent lies below the least of them. -/
theorem eq_of_lt (h : Rounds m q x) (hform : IsForm m q) (hq : -1074 < q) (hx : x < 2 ^ (q + 52)) : m = 2 ^ 52 := by
  have hfull := hform.full.resolve_right (by omega)
  have hpow : (2 : ℚ) ^ (q + 52) = 2 ^ 52 * 2 ^ q := two_zpow_add q 52
  have hlt := h.half_le.trans_lt hx
  rw [hpow, mul_lt_mul_iff_left₀ (two_zpow_pos q)] at hlt
  have hlt : (m : ℚ) < (2 ^ 52 + 1 : Nat) := by
    push_cast
    linarith
  have hlt : m < 2 ^ 52 + 1 := by exact_mod_cast hlt
  omega

end Rounds

/-- A ratio among the reals of a form rounds to it. -/
theorem ofRatio_eq (hform : IsForm m q) (hm : 0 < m) (hnum : 0 < num) (hden : 0 < den) (h : Rounds m q (num / den))
    (negative : Bool) : ofRatio negative num den = .finite negative m q := by
  obtain ⟨hlow, hhigh⟩ := binaryExponent_bounds hnum hden
  have hbelow := h.lt_pow hform
  have hsplit : (2 : ℚ) ^ (q + 52) = 2 ^ 52 * 2 ^ q := two_zpow_add q 52
  have hkept : max (binaryExponent num den - 52) (-1074) = q ∨
      binaryExponent num den - 52 = q - 1 ∧ -1074 < q ∧ m = 2 ^ 52 ∧ (num / den : ℚ) < 2 ^ (q + 52) := by
    rcases le_or_gt ((2 : ℚ) ^ (q + 52)) (num / den) with hge | hlt
    · have he := exponent_unique hlow hhigh hge (by rwa [show q + 52 + 1 = q + 53 by ring])
      have hleast := hform.least
      exact .inl (by omega)
    · have he := (zpow_lt_zpow_iff_right₀ (by norm_num : (1 : ℚ) < 2)).mp (hlow.trans_lt hlt)
      rcases hform.least.eq_or_lt with rfl | hq
      · exact .inl (by omega)
      · have hm := h.eq_of_lt hform hq hlt
        have hge : (2 : ℚ) ^ (q + 51) ≤ num / den := by
          refine le_trans ?_ h.half_le
          have hpow : (2 : ℚ) ^ (q + 51) = 2 ^ 51 * 2 ^ q := two_zpow_add q 51
          rw [hm, hpow]
          exact mul_le_mul_of_nonneg_right (by norm_num) (two_zpow_pos q).le
        have he := exponent_unique hlow hhigh hge (by rwa [show q + 51 + 1 = q + 52 by ring])
        exact .inr ⟨by omega, hq, hm, hlt⟩
  unfold ofRatio
  rw [if_neg hnum.ne']
  rcases hkept with hkept | ⟨he, hq, rfl, hlt⟩
  · have hround := roundQuotient_scaled hden h.half_le h.above h.even_of_tie
    have hne : ¬ m = Nat.pow 2 53 := hform.bits.ne
    have hmost : ¬ q > 971 := not_lt.mpr hform.most
    simp only [hkept, hround, if_neg hne, if_neg hmost]
  · -- just below a power of two, the rounding carries into the next exponent
    have hpow : (2 : ℚ) ^ q = 2 * 2 ^ (q - 1) := by simpa using two_zpow_add (q - 1) 1
    have hbelow : lower (2 ^ 52) q ≤ num / den := h.below
    rw [lower, if_pos ⟨rfl, hq⟩, hpow] at hbelow
    rw [hsplit, hpow] at hlt
    have hround : roundQuotient (num * Nat.pow 2 (-(q - 1)).toNat) (den * Nat.pow 2 (q - 1).toNat) = 2 ^ 53 := by
      refine roundQuotient_scaled hden ?_ ?_ fun _ => by decide
      · push_cast at hbelow ⊢
        linarith
      · push_cast
        have hpos := two_zpow_pos (q - 1)
        linarith
    have hkept : max (binaryExponent num den - 52) (-1074) = q - 1 := by omega
    have hcarry : 2 ^ 53 = Nat.pow 2 53 := rfl
    have hmost : ¬ q - 1 + 1 > 971 := by have := hform.most; omega
    simp only [hkept, hround, if_pos hcarry, if_neg hmost]
    rw [sub_add_cancel]
    rfl

end Double

end Introspect
