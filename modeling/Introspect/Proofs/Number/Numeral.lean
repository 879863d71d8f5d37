import Introspect.Number.Numeral
/-! The text of an integer is a numeral that stands for the integer. -/
namespace Introspect

namespace Text

theorem toNat_of_isDigit {c : Char} (h : c.isDigit = true) : 48 ≤ c.toNat ∧ c.toNat ≤ 57 := by
  simp only [Char.isDigit, Bool.and_eq_true, decide_eq_true_eq, UInt32.le_iff_toNat_le] at h
  exact h

theorem digitValue?_of_isDigit {c : Char} (h : c.isDigit = true) : digitValue? c = some (c.toNat - '0'.toNat) := by
  have hrange := toNat_of_isDigit h
  have hascii : c.toNat < 0x80 := by omega
  rw [digitValue?, if_pos hascii, if_pos ⟨UInt32.le_iff_toNat_le.mpr hrange.1, UInt32.le_iff_toNat_le.mpr hrange.2⟩]
  rfl

theorem not_isBlank_of_isDigit {c : Char} (h : c.isDigit = true) : isBlank c = false := by
  have hrange := toNat_of_isDigit h
  simp only [isBlank, isSeparator, Bool.or_eq_false_iff, Bool.and_eq_false_iff, decide_eq_false_iff_not,
    beq_eq_false_iff_ne]
  omega

theorem trimBy_of_not {p : Char → Bool} {cs : List Char} (h : ∀ c ∈ cs, p c = false) : trimBy p cs = cs := by
  have hkeep (cs : List Char) (h : ∀ c ∈ cs, p c = false) : cs.dropWhile p = cs := by
    cases cs with
    | nil => rfl
    | cons c rest => exact List.dropWhile_cons_of_neg (Bool.not_eq_true _ ▸ h c List.mem_cons_self)
  rw [trimBy, hkeep cs h, hkeep cs.reverse fun c hc => h c (List.mem_reverse.mp hc), List.reverse_reverse]

end Text

theorem Decimal.readDigits_of_isDigit {cs : List Char} (h : ∀ c ∈ cs, c.isDigit = true) :
    readDigits cs = (Nat.ofDigitChars 10 cs 0, cs.length, []) := by
  induction cs with
  | nil => rfl
  | cons c rest ih =>
      rw [readDigits, Text.digitValue?_of_isDigit (h c List.mem_cons_self),
        ih fun d hd => h d (List.mem_cons_of_mem _ hd), Nat.ofDigitChars_cons, Nat.mul_zero, Nat.zero_add]
      conv => rhs; rw [Nat.ofDigitChars_eq_ofDigitChars_zero]
      simp only [List.length_cons, Nat.pow_eq, Nat.mul_comm]

namespace Numeral

theorem toList_nat (n : Nat) : (toString n).toList = Nat.toDigits 10 n := Nat.toList_repr

/-- A number starts with a digit. -/
theorem exists_digit (n : Nat) : ∃ c rest, Nat.toDigits 10 n = c :: rest ∧ c.isDigit = true := by
  obtain ⟨c, rest, hd⟩ := List.exists_cons_of_ne_nil (Nat.toDigits_ne_nil (b := 10) (n := n))
  exact ⟨c, rest, hd, Nat.isDigit_of_mem_toDigits (by decide) (by decide) (hd ▸ List.mem_cons_self)⟩

theorem readDigits_nat (n : Nat) :
    Decimal.readDigits (Nat.toDigits 10 n) = (n, (Nat.toDigits 10 n).length, []) := by
  rw [Decimal.readDigits_of_isDigit fun c hc => Nat.isDigit_of_mem_toDigits (by decide) (by decide) hc,
    Nat.ofDigitChars_toDigits (by decide) (by decide)]

/-- The characters of an integer: its sign and its digits. -/
def signed (negative : Bool) (n : Nat) : List Char := (if negative then ['-'] else []) ++ Nat.toDigits 10 n

theorem toList_int (i : Int) : (toString i).toList = signed (decide (i < 0)) i.natAbs := by
  cases i with
  | ofNat n => exact toList_nat n
  | negSucc n =>
      have hneg : decide (Int.negSucc n < 0) = true := decide_eq_true (Int.negSucc_lt_zero n)
      change ("-" ++ toString (n + 1)).toList = _
      rw [String.toList_append, toList_nat, hneg]
      rfl

theorem toList_int_ne_nil (i : Int) : (toString i).toList ≠ [] := by
  rw [toList_int, signed]
  exact List.append_ne_nil_of_right_ne_nil _ Nat.toDigits_ne_nil

theorem isDigit_or_dash {negative : Bool} {n : Nat} {c : Char} (hc : c ∈ signed negative n) :
    c = '-' ∨ c.isDigit = true := by
  rcases List.mem_append.mp hc with hc | hc
  · split at hc
    · exact .inl (List.mem_singleton.mp hc)
    · cases hc
  · exact .inr (Nat.isDigit_of_mem_toDigits (by decide) (by decide) hc)

theorem trimBy_signed {p : Char → Bool} (hp : ∀ c, p c = true → Text.isBlank c = true) (negative : Bool) (n : Nat) :
    Text.trimBy p (signed negative n) = signed negative n :=
  Text.trimBy_of_not fun c hc => Bool.not_eq_true _ ▸ fun h => by
    have hblank := hp c h
    rcases isDigit_or_dash hc with rfl | hd
    · exact absurd hblank (by decide)
    · rw [Text.not_isBlank_of_isDigit hd] at hblank
      cases hblank

theorem dropDash_signed (negative : Bool) (n : Nat) :
    (signed negative n).dropWhile (· = '-') = Nat.toDigits 10 n := by
  obtain ⟨c, rest, hd, hc⟩ := exists_digit n
  have hne : c ≠ '-' := fun he => absurd (he ▸ hc) (by decide)
  cases negative <;> simp [signed, hd, hne]

theorem readSign_signed (negative : Bool) (n : Nat) :
    Decimal.readSign (signed negative n) = (negative, Nat.toDigits 10 n) := by
  cases negative with
  | true => rfl
  | false =>
      obtain ⟨c, rest, hd, hc⟩ := exists_digit n
      rw [signed, hd]
      change Decimal.readSign (c :: rest) = _
      unfold Decimal.readSign
      split
      · rename_i h
        cases h
        exact absurd hc (by decide)
      · rename_i h
        cases h
        exact absurd hc (by decide)
      · rfl

theorem toList_int_inj {i j : Int} (h : (toString i).toList = (toString j).toList) : i = j := by
  have hread := congrArg Decimal.readSign h
  rw [toList_int, toList_int, readSign_signed, readSign_signed] at hread
  obtain ⟨hsign, hdigits⟩ := Prod.mk.inj hread
  have hvalue := congrArg Decimal.readDigits hdigits
  rw [readDigits_nat, readDigits_nat] at hvalue
  have hsign := decide_eq_decide.mp hsign
  have hvalue := (Prod.mk.inj hvalue).1
  omega

theorem dropUnderscores?_eq {cs : List Char} (h : ∀ c ∈ cs, c ≠ '_') {last : Last} (hl : last ≠ .underscore) :
    dropUnderscores? last cs = some cs := by
  induction cs generalizing last with
  | nil => simp [dropUnderscores?, hl]
  | cons c rest ih =>
      have hrest {last : Last} (hl : last ≠ .underscore) : dropUnderscores? last rest = some rest :=
        ih (fun d hd => h d (List.mem_cons_of_mem _ hd)) hl
      simp [dropUnderscores?, h c List.mem_cons_self, hl, hrest]

theorem body?_int (i : Int) : body? (toString i) = some (toString i).toList := by
  rw [body?, toList_int, trimBy_signed fun c h => (Bool.and_eq_true _ _ ▸ h).1]
  refine dropUnderscores?_eq (fun c hc => ?_) (by decide)
  rcases isDigit_or_dash hc with rfl | hd
  · decide
  · rintro rfl
    exact absurd hd (by decide)

theorem exists_length (n : Nat) : ∃ count, (Nat.toDigits 10 n).length = count + 1 := by
  obtain ⟨c, rest, hd, -⟩ := exists_digit n
  exact ⟨rest.length, by rw [hd, List.length_cons]⟩

theorem looksIntegral_int (i : Int) : looksIntegral (toString i) = true := by
  obtain ⟨count, hcount⟩ := exists_length i.natAbs
  rw [looksIntegral, toList_int, trimBy_signed fun _ => id, readSign_signed]
  simp only [readDigits_nat, hcount]

theorem looksNumeric_int (i : Int) : looksNumeric (toString i) = true := by
  obtain ⟨count, hcount⟩ := exists_length i.natAbs
  rw [looksNumeric, toList_int, trimBy_signed fun _ => id, readSign_signed]
  simp only [isDecimal, readDigits_nat, hcount, isExponent, Bool.true_or]

/-- An integer that has a text is what that text is read as. -/
theorem read?_of_intText? {i : Int} {s : String} (h : intText? i = some s) :
    s = toString i ∧ read? s = some (.int i) := by
  obtain ⟨count, hcount⟩ := exists_length i.natAbs
  rw [intText?] at h
  split at h
  · cases h
  · rename_i hlimit
    cases h
    rw [← String.length_toList, toList_nat, hcount] at hlimit
    refine ⟨rfl, ?_⟩
    rw [read?, if_pos (looksIntegral_int i), readInt?, body?_int]
    simp only [Option.bind_eq_bind, Option.bind_some, toList_int, readSign_signed, readDigits_nat, hcount, if_neg hlimit,
      Option.map_some, decide_eq_true_eq]
    congr 2
    omega

end Numeral

end Introspect
