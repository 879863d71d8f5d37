import Introspect.Proofs.Number.Rounding
/-!
The shortest decimal of a floating-point number reads back to the number. Seventeen digits always suffice:
the grid of as many is finer than the reals that round to the number.
-/
namespace Introspect

/-! ## Lengths of numbers -/

theorem Numeral.pow_le_of_length {n : Nat} (hn : 0 < n) : 10 ^ ((Nat.toDigits 10 n).length - 1) ≤ n := by
  have hpos : 0 < (Nat.toDigits 10 n).length := Nat.length_toDigits_pos
  rcases Nat.eq_or_lt_of_le hpos with hone | hmore
  · rw [← hone]
    exact hn
  · have hcount : 0 < (Nat.toDigits 10 n).length - 1 := Nat.sub_pos_of_lt hmore
    have h := Nat.length_toDigits_le_iff (by norm_num : 1 < 10) (n := n) hcount
    omega

theorem Numeral.lt_pow_length (n : Nat) : n < 10 ^ (Nat.toDigits 10 n).length :=
  (Nat.length_toDigits_le_iff (by norm_num) Nat.length_toDigits_pos).mp le_rfl

namespace Scientific

variable {d : Scientific}

theorem value_lt (d : Scientific) : d.value < 10 ^ ((Nat.toDigits 10 d.digits).length + d.exponent : Int) := by
  have h : (d.digits : ℚ) < 10 ^ ((Nat.toDigits 10 d.digits).length : Int) := by
    exact_mod_cast Numeral.lt_pow_length d.digits
  rw [zpow_add₀ (by norm_num)]
  exact mul_lt_mul_of_pos_right h (zpow_pos (by norm_num) _)

theorem le_value (h : 0 < d.digits) :
    (10 : ℚ) ^ ((Nat.toDigits 10 d.digits).length + d.exponent - 1 : Int) ≤ d.value := by
  have hpos : 0 < (Nat.toDigits 10 d.digits).length := Nat.length_toDigits_pos
  have h : (10 : ℚ) ^ (((Nat.toDigits 10 d.digits).length - 1 : Nat) : Int) ≤ d.digits := by
    exact_mod_cast Numeral.pow_le_of_length h
  rw [show ((Nat.toDigits 10 d.digits).length + d.exponent - 1 : Int) =
    ((Nat.toDigits 10 d.digits).length - 1 : Nat) + d.exponent by omega, zpow_add₀ (by norm_num)]
  exact mul_le_mul_of_nonneg_right h (zpow_pos (by norm_num) _).le

theorem digits_pos (h : 0 < d.value) : 0 < d.digits := by
  refine Nat.pos_of_ne_zero fun hzero => h.ne' ?_
  rw [value, hzero, Nat.cast_zero, zero_mul]

end Scientific

namespace Double

variable {m : Nat} {q e : Int} {d : Scientific}

/-! ## Reading -/

/-- A decimal among the reals of a form is read as the form. -/
theorem ofDecimal_eq (hform : IsForm m q) (hm : 0 < m) (h : Rounds m q d.value) (negative : Bool) :
    ofDecimal negative d.digits d.exponent = .finite negative m q := by
  have hdigits := Scientific.digits_pos (h.pos hm)
  have hone : (1 : ℚ) < 10 := by norm_num
  have hlarge : d.value < 10 ^ (309 : Int) :=
    calc d.value < 2 ^ (q + 53) := h.lt_pow hform
      _ ≤ 2 ^ (1024 : Int) := zpow_le_zpow_right₀ (by norm_num) (by have := hform.most; omega)
      _ ≤ 10 ^ (309 : Int) := by
          have h : 2 ^ 1024 ≤ 10 ^ 309 := by decide +kernel
          exact_mod_cast h
  have hsmall : (10 : ℚ) ^ (-324 : Int) ≤ d.value :=
    calc (10 : ℚ) ^ (-324 : Int) ≤ 2 ^ (-1 : Int) * 2 ^ (-1074 : Int) := by
          have h : 2 ^ 1075 ≤ 10 ^ 324 := by decide +kernel
          have h : (2 : ℚ) ^ (1075 : Int) ≤ 10 ^ (324 : Int) := by exact_mod_cast h
          rw [← zpow_add₀ (by norm_num), show (-1 + -1074 : Int) = -1075 by rfl, zpow_neg, zpow_neg]
          exact inv_anti₀ (by positivity) h
      _ ≤ (m - 1 / 2) * 2 ^ q := by
          have hm : (1 : ℚ) ≤ m := by exact_mod_cast hm
          have hone : (2 : ℚ) ^ (-1 : Int) ≤ m - 1 / 2 := by norm_num; linarith
          exact mul_le_mul hone (zpow_le_zpow_right₀ (by norm_num) hform.least) (two_zpow_pos _).le (by linarith)
      _ ≤ d.value := h.half_le
  have hupper := (zpow_lt_zpow_iff_right₀ hone).mp ((Scientific.le_value hdigits).trans_lt hlarge)
  have hlower := (zpow_lt_zpow_iff_right₀ hone).mp (hsmall.trans_lt (Scientific.value_lt d))
  have hten : (10 : ℚ) = (10 : Nat) := by norm_num
  have hratio : d.value = ((d.digits * Nat.pow 10 d.exponent.toNat : Nat) : ℚ) / (Nat.pow 10 (-d.exponent).toNat : Nat) := by
    rw [Scientific.value, hten, zpow_eq_div, Nat.cast_mul, mul_div_assoc]
  unfold ofDecimal
  dsimp only
  rw [if_neg (by omega), if_neg (by omega)]
  exact ofRatio_eq hform hm (Nat.mul_pos hdigits (Nat.pow_pos (by norm_num))) (Nat.pow_pos (by norm_num))
    (hratio ▸ h) negative

/-- The comparisons with both ends decide which decimals read back. -/
theorem readsBack_iff (hm : 0 < m) : readsBack m q d = true ↔ Rounds m q d.value := by
  have hquarter : (2 : ℚ) ^ q = 4 * 2 ^ (q - 2) := by
    have hsplit := two_zpow_add (q - 2) 2
    norm_num at hsplit
    exact hsplit
  have hlower : (((if m = Nat.pow 2 52 ∧ q > -1074 then 4 * m - 1 else 4 * m - 2 : Nat) : ℚ)) * 2 ^ (q - 2) = lower m q := by
    unfold lower
    rw [hquarter]
    by_cases h : m = 2 ^ 52 ∧ -1074 < q
    · rw [if_pos (c := m = Nat.pow 2 52 ∧ q > -1074) h, if_pos h, Nat.cast_sub (by omega)]
      push_cast
      ring
    · rw [if_neg (c := m = Nat.pow 2 52 ∧ q > -1074) h, if_neg h, Nat.cast_sub (by omega)]
      push_cast
      ring
  have hupper : ((4 * m + 2 : Nat) : ℚ) * 2 ^ (q - 2) = upper m q := by
    rw [upper, hquarter]
    push_cast
    ring
  unfold readsBack
  simp only [compareScaled_eq, hlower, hupper]
  change (_ : Bool) = true ↔ _
  rw [Bool.and_eq_true, Bool.or_eq_true, Bool.or_eq_true, Bool.and_eq_true, Bool.and_eq_true]
  simp only [beq_iff_eq, compare_gt_iff_gt, compare_eq_iff_eq, compare_lt_iff_lt]
  constructor
  · rintro ⟨hlow, hhigh⟩
    refine ⟨?_, ?_, ?_⟩
    · exact hlow.elim (fun h => h.le) fun h => h.2.ge
    · exact hhigh.elim (fun h => h.le) fun h => h.2.le
    · rintro (hx | hx)
      · exact hlow.elim (fun h => absurd hx h.ne') fun h => h.1
      · exact hhigh.elim (fun h => absurd hx h.ne) fun h => h.1
  · intro h
    refine ⟨?_, ?_⟩
    · exact h.below.lt_or_eq.imp_right fun heq => ⟨h.ends (.inl heq.symm), heq.symm⟩
    · exact h.above.lt_or_eq.imp_right fun heq => ⟨h.ends (.inr heq), heq⟩

/-! ## Writing -/

theorem readsBack_of_nearestOnGrid? (h : nearestOnGrid? m q e = some d) : readsBack m q d = true := by
  unfold nearestOnGrid? at h
  dsimp only at h
  split at h
  · rename_i hlow _
    cases h
    exact hlow
  · rename_i hhigh
    cases h
    exact hhigh
  · cases h
  · rename_i hlow hhigh
    split at h
    · cases h
      exact hlow
    · cases h
      exact hhigh
    · cases h
      split
      · exact hlow
      · exact hhigh

/-- The points of a grid around a value. -/
theorem grid_bounds (m : Nat) (q e : Int) :
    let k := m * Nat.pow 2 q.toNat * Nat.pow 10 (-e).toNat / (Nat.pow 2 (-q).toNat * Nat.pow 10 e.toNat)
    Scientific.value ⟨k, e⟩ ≤ m * 2 ^ q ∧ m * 2 ^ q < Scientific.value ⟨k + 1, e⟩ := by
  have hten : (10 : ℚ) ^ e = _ := zpow_eq_div 10 e
  have htwo : (2 : ℚ) ^ q = _ := zpow_eq_div 2 q
  have hup := natCast_pow_pos (by norm_num : 0 < 10) e.toNat
  have hdown := natCast_pow_pos (by norm_num : 0 < 10) (-e).toNat
  have hdown' := natCast_pow_pos (by norm_num : 0 < 2) (-q).toNat
  unfold Scientific.value
  dsimp only
  rw [hten, htwo]
  generalize Nat.pow 2 q.toNat = up' at *
  generalize Nat.pow 2 (-q).toNat = down' at *
  generalize Nat.pow 10 e.toNat = up at *
  generalize Nat.pow 10 (-e).toNat = down at *
  have hpos : 0 < down' * up := Nat.mul_pos (by exact_mod_cast hdown') (by exact_mod_cast hup)
  rw [← mul_div_assoc, ← mul_div_assoc, ← mul_div_assoc, div_le_div_iff₀ hdown hdown', div_lt_div_iff₀ hdown' hdown]
  constructor
  · have h := Nat.div_mul_le_self (m * up' * down) (down' * up)
    have h : m * up' * down / (down' * up) * up * down' ≤ m * up' * down := by
      rwa [mul_assoc, mul_comm up down']
    exact_mod_cast h
  · have h := Nat.lt_div_mul_add hpos (a := m * up' * down)
    have h : m * up' * down < (m * up' * down / (down' * up) + 1) * up * down' := by
      rwa [mul_assoc (_ + 1), mul_comm up down', add_mul, one_mul]
    exact_mod_cast h

/-- On a grid of seventeen digits one of the two points around a number reads back. -/
theorem exists_readsBack (hform : IsForm m q) (hm : 0 < m) {k : Nat} (hgrid : (10 : ℚ) ^ e * 10 ^ 16 ≤ m * 2 ^ q)
    (hlow : Scientific.value ⟨k, e⟩ ≤ m * 2 ^ q) (hhigh : m * 2 ^ q < Scientific.value ⟨k + 1, e⟩) :
    readsBack m q ⟨k, e⟩ = true ∨ readsBack m q ⟨k + 1, e⟩ = true := by
  simp only [readsBack_iff hm]
  have hnext : Scientific.value ⟨k + 1, e⟩ = Scientific.value ⟨k, e⟩ + 10 ^ e := by
    simp only [Scientific.value]
    push_cast
    ring
  have hbits : (m : ℚ) + 1 ≤ 2 ^ 53 := by exact_mod_cast hform.bits
  have hpos := two_zpow_pos q
  have hbelow : lower m q < m * 2 ^ q := by
    unfold lower
    split
    · exact mul_lt_mul_of_pos_right (by linarith) hpos
    · exact mul_lt_mul_of_pos_right (by linarith) hpos
  have habove : upper m q = m * 2 ^ q + 2 ^ q / 2 := by
    rw [upper]
    ring
  have hinside {x : ℚ} (hlow : lower m q < x) (hhigh : x < upper m q) : Rounds m q x :=
    ⟨hlow.le, hhigh.le, fun h => h.elim (fun h => absurd h hlow.ne') fun h => absurd h hhigh.ne⟩
  rcases lt_or_ge (Scientific.value ⟨k + 1, e⟩) (upper m q) with hnear | hfar
  · exact .inr (hinside (hbelow.trans hhigh) hnear)
  · refine .inl (hinside ?_ (hlow.trans_lt (by linarith)))
    have hne : ¬ (m = 2 ^ 52 ∧ -1074 < q) := by
      rintro ⟨rfl, -⟩
      push_cast at hgrid hlow hhigh habove hfar
      linarith
    have hsize : (m : ℚ) * 2 ^ q ≤ 2 ^ 53 * 2 ^ q := mul_le_mul_of_nonneg_right (by linarith) hpos.le
    rw [lower, if_neg hne, sub_mul]
    linarith

theorem isSome_nearestOnGrid? (hform : IsForm m q) (hm : 0 < m) (hgrid : (10 : ℚ) ^ e * 10 ^ 16 ≤ m * 2 ^ q) :
    (nearestOnGrid? m q e).isSome = true := by
  obtain ⟨hlow, hhigh⟩ := grid_bounds m q e
  have h := exists_readsBack hform hm hgrid hlow hhigh
  unfold nearestOnGrid?
  dsimp only at h ⊢
  split
  · rfl
  · rfl
  · rename_i hlow hhigh
    rw [hlow, hhigh] at h
    exact absurd h (by decide)
  · split <;> rfl

/-- The first places of a number after the point are not more than the number. -/
theorem value_scaled_le (m : Nat) (q : Int) (places : Nat) :
    Scientific.value ⟨m * Nat.pow 2 q.toNat * Nat.pow 10 places / Nat.pow 2 (-q).toNat, -places⟩ ≤ m * 2 ^ q := by
  have htwo : (2 : ℚ) ^ q = _ := zpow_eq_div 2 q
  have hdown := natCast_pow_pos (by norm_num : 0 < 2) (-q).toNat
  have hten : (10 : ℚ) ^ (places : Int) = (Nat.pow 10 places : Nat) := by
    rw [zpow_natCast, Nat.pow_eq]
    norm_num
  have hplaces := natCast_pow_pos (by norm_num : 0 < 10) places
  have hfloor := Nat.div_mul_le_self (m * Nat.pow 2 q.toNat * Nat.pow 10 places) (Nat.pow 2 (-q).toNat)
  rw [Scientific.value, htwo, zpow_neg, hten, ← div_eq_mul_inv, ← mul_div_assoc, div_le_div_iff₀ hplaces hdown]
  exact_mod_cast hfloor

theorem decimalSize_le (hm : 0 < m) (hq : -1074 ≤ q) : (10 : ℚ) ^ (decimalSize m q - 1) ≤ m * 2 ^ q := by
  have hsize (places : Nat) (hlarge : 2 ^ 1074 ≤ Nat.pow 10 places) :
      (10 : ℚ) ^ (((Nat.toDigits 10 (m * Nat.pow 2 q.toNat * Nat.pow 10 places / Nat.pow 2 (-q).toNat)).length : Int) -
        places - 1) ≤ m * 2 ^ q := by
    have hscaled : 0 < m * Nat.pow 2 q.toNat * Nat.pow 10 places / Nat.pow 2 (-q).toNat := by
      refine Nat.div_pos ?_ (Nat.pow_pos (by norm_num))
      calc Nat.pow 2 (-q).toNat ≤ 2 ^ 1074 := Nat.pow_le_pow_right (by norm_num) (by omega)
        _ ≤ Nat.pow 10 places := hlarge
        _ ≤ m * Nat.pow 2 q.toNat * Nat.pow 10 places :=
            Nat.le_mul_of_pos_left _ (Nat.mul_pos hm (Nat.pow_pos (by norm_num)))
    exact (Scientific.le_value (d := ⟨_, -places⟩) hscaled).trans (value_scaled_le m q places)
  exact hsize 400 (by decide +kernel)

theorem value_dropZeros (n : Nat) (d : Scientific) : (dropZeros n d).value = d.value := by
  induction n generalizing d with
  | zero => rfl
  | succ n ih =>
      rw [dropZeros]
      split
      · rename_i h
        rw [ih, Scientific.value, Scientific.value]
        have hdigits : (d.digits : ℚ) = (d.digits / 10 : Nat) * 10 := by
          exact_mod_cast (Nat.div_mul_cancel (Nat.dvd_of_mod_eq_zero h.1)).symm
        rw [hdigits, zpow_add₀ (by norm_num)]
        ring
      · rfl

/-- The shortest decimal of a number lies among the reals that round to it. -/
theorem rounds_shortest (hform : IsForm m q) (hm : 0 < m) : Rounds m q (shortest m q).value := by
  have hgrid : (10 : ℚ) ^ (decimalSize m q - (16 : Nat) - 1) * 10 ^ 16 ≤ m * 2 ^ q := by
    refine le_trans (le_of_eq ?_) (decimalSize_le hm hform.least)
    rw [show (10 : ℚ) ^ 16 = 10 ^ (16 : Int) by rfl, ← zpow_add₀ (by norm_num)]
    congr 1
    push_cast
    ring
  have hlast : decimalSize m q - (16 : Nat) - 1 ∈
      (List.range 17).map fun (n : Nat) => decimalSize m q - (n : Int) - 1 :=
    List.mem_map.mpr ⟨16, List.mem_range.mpr (by norm_num), rfl⟩
  unfold shortest
  dsimp only
  cases hfound : ((List.range 17).map fun (n : Nat) => decimalSize m q - (n : Int) - 1).findSome?
      (nearestOnGrid? m q) with
  | none =>
      have hnone := List.findSome?_eq_none_iff.mp hfound _ hlast
      have hsome := isSome_nearestOnGrid? hform hm hgrid
      rw [hnone] at hsome
      cases hsome
  | some d =>
      obtain ⟨e, -, hd⟩ := List.exists_of_findSome?_eq_some hfound
      rw [value_dropZeros]
      exact (readsBack_iff hm).mp (readsBack_of_nearestOnGrid? hd)

end Double

end Introspect
