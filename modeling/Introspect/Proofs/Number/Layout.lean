import Introspect.Proofs.Number.Numeral
/-! The text of an integer or of a floating-point number looks numeric. -/
namespace Introspect

theorem Decimal.readDigits_append {cs rest : List Char} (h : ∀ c ∈ cs, c.isDigit = true)
    (hrest : readDigits rest = (0, 0, rest)) :
    readDigits (cs ++ rest) = (Nat.ofDigitChars 10 cs 0, cs.length, rest) := by
  induction cs with
  | nil => exact hrest
  | cons c more ih =>
      rw [List.cons_append, readDigits, Text.digitValue?_of_isDigit (h c List.mem_cons_self),
        ih fun d hd => h d (List.mem_cons_of_mem _ hd), Nat.ofDigitChars_cons, Nat.mul_zero, Nat.zero_add]
      conv => rhs; rw [Nat.ofDigitChars_eq_ofDigitChars_zero]
      simp only [List.length_cons, Nat.pow_eq, Nat.mul_comm]

namespace Numeral

/-- Decimal digits, one at least. -/
structure Digits (cs : List Char) : Prop where
  nonempty : cs ≠ []
  digits : ∀ c ∈ cs, c.isDigit = true

/-- An exponent or nothing, as a text of a number ends. -/
structure Tail (cs : List Char) : Prop where
  exponent : isExponent cs = true
  solid : ∀ c ∈ cs, Text.isBlank c = false

/-- A decimal without a sign in front and without blanks. -/
structure Unsigned (cs : List Char) : Prop where
  decimal : isDecimal cs = true
  unsigned : Decimal.readSign cs = (false, cs)
  solid : ∀ c ∈ cs, Text.isBlank c = false

variable {whole part tail cs : List Char}

namespace Digits

theorem nat (n : Nat) : Digits (toString n).toList := by
  rw [toList_nat]
  exact ⟨Nat.toDigits_ne_nil, fun _ hc => Nat.isDigit_of_mem_toDigits (by decide) (by decide) hc⟩

theorem exists_length (h : Digits cs) : ∃ count, cs.length = count + 1 :=
  Nat.exists_eq_add_one_of_ne_zero (mt List.eq_nil_of_length_eq_zero h.nonempty)

theorem append_zeros (h : Digits cs) (n : Nat) : Digits (cs ++ List.replicate n '0') where
  nonempty := List.append_ne_nil_of_left_ne_nil h.nonempty _
  digits c hc := by
    rcases List.mem_append.mp hc with hc | hc
    · exact h.digits c hc
    · rw [List.eq_of_mem_replicate hc]
      rfl

theorem zeros_append (h : Digits cs) (n : Nat) : Digits (List.replicate n '0' ++ cs) where
  nonempty := List.append_ne_nil_of_right_ne_nil _ h.nonempty
  digits c hc := by
    rcases List.mem_append.mp hc with hc | hc
    · rw [List.eq_of_mem_replicate hc]
      rfl
    · exact h.digits c hc

theorem take (h : Digits cs) {n : Nat} (hn : 0 < n) : Digits (cs.take n) where
  nonempty := fun hnil => (List.take_eq_nil_iff.mp hnil).elim (Nat.ne_of_gt hn) h.nonempty
  digits c hc := h.digits c (List.mem_of_mem_take hc)

theorem drop (h : Digits cs) {n : Nat} (hn : n < cs.length) : Digits (cs.drop n) where
  nonempty := fun hnil => absurd (List.drop_eq_nil_iff.mp hnil) (Nat.not_le_of_lt hn)
  digits c hc := h.digits c (List.mem_of_mem_drop hc)

theorem solid (h : Digits cs) : ∀ c ∈ cs, Text.isBlank c = false := fun c hc =>
  Text.not_isBlank_of_isDigit (h.digits c hc)

theorem unsigned (h : Digits cs) (rest : List Char) : Decimal.readSign (cs ++ rest) = (false, cs ++ rest) := by
  obtain ⟨c, more, rfl⟩ := List.exists_cons_of_ne_nil h.nonempty
  have hc := h.digits c List.mem_cons_self
  have hminus : c ≠ '-' := fun he => absurd (he ▸ hc) (by decide)
  have hplus : c ≠ '+' := fun he => absurd (he ▸ hc) (by decide)
  rw [List.cons_append, Decimal.readSign]
  · exact fun rest h => hminus (List.cons.inj h).1
  · exact fun rest h => hplus (List.cons.inj h).1

end Digits

/-! ## Exponents -/

theorem exponent_cases (h : isExponent tail = true) :
    tail = [] ∨ ∃ rest, tail = 'e' :: rest ∨ tail = 'E' :: rest := by
  cases tail with
  | nil => exact .inl rfl
  | cons c rest =>
      simp only [isExponent, Bool.and_eq_true, Bool.or_eq_true, decide_eq_true_eq] at h
      exact .inr ⟨rest, h.1.imp (congrArg (· :: rest)) (congrArg (· :: rest))⟩

theorem Tail.readDigits (h : Tail tail) : Decimal.readDigits tail = (0, 0, tail) := by
  rcases exponent_cases h.exponent with rfl | ⟨rest, rfl | rfl⟩ <;> rfl

theorem Tail.nil : Tail [] := ⟨rfl, fun _ hc => absurd hc List.not_mem_nil⟩

theorem Tail.of_digits {sign : Char} (hs : sign = '-' ∨ sign = '+') (h : Digits cs) : Tail ('e' :: sign :: cs) := by
  have hsign : (Decimal.readSign (sign :: cs)).2 = cs := by rcases hs with rfl | rfl <;> rfl
  obtain ⟨count, hcount⟩ := h.exists_length
  constructor
  · simp only [isExponent, hsign, Decimal.readDigits_of_isDigit h.digits, hcount, decide_true, Bool.true_or,
      Bool.and_self]
  · intro c hc
    rcases List.mem_cons.mp hc with rfl | hc
    · decide
    · rcases List.mem_cons.mp hc with rfl | hc
      · rcases hs with rfl | rfl <;> decide
      · exact h.solid c hc

theorem Tail.exponentText (e : Int) : Tail ('e' :: (Double.exponentText e).toList) := by
  have hdigits (short : Prop) [Decidable short] :
      Digits (if short then "0" ++ toString e.natAbs else toString e.natAbs).toList := by
    split
    · rw [String.toList_append]
      exact (Digits.nat e.natAbs).zeros_append 1
    · exact .nat e.natAbs
  unfold Double.exponentText
  dsimp only
  rw [String.toList_append]
  split
  · exact .of_digits (.inl rfl) (hdigits _)
  · exact .of_digits (.inr rfl) (hdigits _)

/-! ## Decimals -/

theorem Unsigned.of_whole (hw : Digits whole) (ht : Tail tail) : Unsigned (whole ++ tail) where
  decimal := by
    obtain ⟨count, hcount⟩ := hw.exists_length
    rw [isDecimal, Decimal.readDigits_append hw.digits ht.readDigits, hcount]
    rcases exponent_cases ht.exponent with rfl | ⟨rest, rfl | rfl⟩ <;> exact ht.exponent
  unsigned := hw.unsigned tail
  solid c hc := (List.mem_append.mp hc).elim (hw.solid c) (ht.solid c)

theorem Unsigned.of_pointed (hw : Digits whole) (hp : Digits part) (ht : Tail tail) :
    Unsigned (whole ++ '.' :: (part ++ tail)) where
  decimal := by
    obtain ⟨count, hcount⟩ := hw.exists_length
    have hpoint : Decimal.readDigits ('.' :: (part ++ tail)) = (0, 0, '.' :: (part ++ tail)) := rfl
    rw [isDecimal, Decimal.readDigits_append hw.digits hpoint, hcount]
    simp only [Decimal.readDigits_append hp.digits ht.readDigits, ht.exponent]
  unsigned := hw.unsigned _
  solid c hc := by
    rcases List.mem_append.mp hc with hc | hc
    · exact hw.solid c hc
    · rcases List.mem_cons.mp hc with rfl | hc
      · decide
      · exact (List.mem_append.mp hc).elim (hp.solid c) (ht.solid c)

theorem Unsigned.of_parts (hw : Digits whole) (hp : Digits part) : Unsigned (whole ++ '.' :: part) := by
  have h := of_pointed hw hp .nil
  rwa [List.append_nil] at h

/-- However a number is laid out, digits stand on both sides of a point, or alone before an exponent. -/
theorem unsigned_layout (d : Scientific) : Unsigned (Double.layout ".0" d).toList := by
  have hd := Digits.nat d.digits
  have hzero : Digits ['0'] := .nat 0
  have hlength : (toString d.digits).length = (toString d.digits).toList.length := String.length_toList.symm
  unfold Double.layout
  dsimp only
  generalize toString d.digits = digits at hd hlength ⊢
  split
  · split
    · simp only [String.toList_append, String.toList_ofList]
      exact .of_parts hzero (hd.zeros_append _)
    · split
      · simp only [String.toList_append, String.toList_ofList]
        exact .of_parts (hd.append_zeros _) hzero
      · simp only [String.toList_append, String.toList_ofList, List.append_assoc]
        exact .of_parts (hd.take (by omega)) (hd.drop (by omega))
  · have htail := Tail.exponentText (digits.length + d.exponent - 1)
    have hfirst : Digits (digits.toList.take 1) := hd.take (by decide)
    simp only [String.toList_append, String.toList_ofList, List.append_assoc]
    split
    · exact .of_whole hfirst htail
    · rename_i hmore
      have hpart : Digits (digits.toList.drop 1) := hd.drop (by
        rw [List.isEmpty_iff, List.drop_eq_nil_iff] at hmore
        exact Nat.lt_of_not_le hmore)
      have h := Unsigned.of_pointed hfirst hpart htail
      simp only [String.toList_append, String.toList_ofList, List.append_assoc]
      exact h

theorem looksNumeric_sign {s : String} (negative : Bool) (h : Unsigned s.toList) :
    looksNumeric (Double.sign negative ++ s) = true := by
  have hsign : (Double.sign negative).toList = if negative then ['-'] else [] := by cases negative <;> rfl
  have hsolid : ∀ c ∈ (if negative then ['-'] else []) ++ s.toList, Text.isBlank c = false := by
    intro c hc
    rcases List.mem_append.mp hc with hc | hc
    · split at hc
      · rw [List.mem_singleton.mp hc]
        decide
      · cases hc
    · exact h.solid c hc
  have hread : (Decimal.readSign ((if negative then ['-'] else []) ++ s.toList)).2 = s.toList := by
    cases negative with
    | true => rfl
    | false => exact congrArg Prod.snd h.unsigned
  rw [looksNumeric, String.toList_append, hsign, Text.trimBy_of_not hsolid, hread]
  simp only [h.decimal, Bool.true_or]

theorem looksNumeric_text (x : Double) : looksNumeric x.text = true := by
  cases x with
  | nan => decide
  | infinite negative => cases negative <;> decide
  | finite negative m q => exact looksNumeric_sign negative (unsigned_layout _)

end Numeral

end Introspect
