import Introspect.Proofs.Number.Numeral
/-!
Numerals that are recognised and yet not read. A text that looks numeric has a number unless it holds an information
separator or one of the two letters that only fold to an `i`, or is an integer of too many digits.
-/
namespace Introspect

namespace Text

variable {p q f : Char → Bool} {cs : List Char} {c : Char}

theorem mem_dropWhile_of_not (hc : p c = false) (h : c ∈ cs) : c ∈ cs.dropWhile p := by
  induction cs with
  | nil => exact h
  | cons d rest ih =>
      rcases List.mem_cons.mp h with rfl | h
      · simp [hc]
      · cases hd : p d with
        | true => simpa [hd] using ih h
        | false => simp [hd, h]

/-- What is trimmed away satisfies the predicate. -/
theorem mem_trimBy_of_not (hc : p c = false) (h : c ∈ cs) : c ∈ trimBy p cs := by
  rw [trimBy, List.mem_reverse]
  exact mem_dropWhile_of_not hc (List.mem_reverse.mpr (mem_dropWhile_of_not hc h))

theorem mem_of_mem_trimBy (h : c ∈ trimBy p cs) : c ∈ cs := by
  rw [trimBy, List.mem_reverse] at h
  exact (List.dropWhile_sublist p).subset (List.mem_reverse.mp ((List.dropWhile_sublist p).subset h))

theorem filter_dropWhile (hp : ∀ c, p c = true → f c = false) : (cs.dropWhile p).filter f = cs.filter f := by
  induction cs with
  | nil => rfl
  | cons c rest ih =>
      cases hc : p c with
      | true => simp [hc, hp c hc, ih]
      | false => simp [hc]

theorem filter_trimBy (hp : ∀ c, p c = true → f c = false) : (trimBy p cs).filter f = cs.filter f := by
  rw [trimBy, List.filter_reverse, filter_dropWhile hp, List.filter_reverse, filter_dropWhile hp, List.reverse_reverse]

theorem dropWhile_congr (h : ∀ c ∈ cs, p c = q c) : cs.dropWhile p = cs.dropWhile q := by
  induction cs with
  | nil => rfl
  | cons c rest ih =>
      rw [List.dropWhile_cons, List.dropWhile_cons, h c List.mem_cons_self,
        ih fun d hd => h d (List.mem_cons_of_mem _ hd)]

theorem trimBy_congr (h : ∀ c ∈ cs, p c = q c) : trimBy p cs = trimBy q cs := by
  rw [trimBy, trimBy, dropWhile_congr h, dropWhile_congr]
  intro c hc
  exact h c ((List.dropWhile_sublist q).subset (List.mem_reverse.mp hc))

theorem isDigit_of_small (h : c.toNat < 48) : isDigit c = false := by
  have hsmall : c.toNat < 0x80 := by omega
  have hzero : ¬ '0' ≤ c := fun hle => by
    have hle : (48 : Nat) ≤ c.toNat := UInt32.le_iff_toNat_le.mp hle
    omega
  simp [isDigit, digitValue?, hsmall, hzero]

/-- No script has its digits among the blanks. -/
theorem not_isDigit_of_isBlank (h : isBlank c = true) : isDigit c = false := by
  by_cases hsmall : c.toNat < 48
  · exact isDigit_of_small hsmall
  · have hzeros : ∀ z ∈ digitZeros, 0x660 ≤ z ∧ (z + 10 ≤ 0x1680 ∨ 0x1680 < z) ∧ (z + 10 ≤ 0x2000 ∨ 0x3000 < z) := by
      decide
    have hblank : c.toNat = 0x85 ∨ c.toNat = 0xA0 ∨ c.toNat = 0x1680 ∨ 0x2000 ≤ c.toNat ∧ c.toNat ≤ 0x3000 := by
      simp only [isBlank, isSeparator, Bool.or_eq_true, Bool.and_eq_true, decide_eq_true_eq, beq_iff_eq] at h
      omega
    have hlarge : ¬ c.toNat < 0x80 := by omega
    rw [isDigit, digitValue?, if_neg hlarge, Option.isSome_map, Bool.eq_false_iff, ne_eq, List.find?_isSome]
    rintro ⟨z, hz, hrange⟩
    obtain ⟨hlow, hogham, hmiddle⟩ := hzeros z hz
    simp only [Bool.and_eq_true, decide_eq_true_eq] at hrange
    omega

end Text

namespace Decimal

variable {cs : List Char} {c : Char}

/-- Digits come off the front of a text, as many as are counted. -/
theorem readDigits_split (cs : List Char) : ∃ digits, cs = digits ++ (readDigits cs).2.2 ∧
    digits.length = (readDigits cs).2.1 ∧ ∀ c ∈ digits, Text.isDigit c = true := by
  induction cs with
  | nil => exact ⟨[], rfl, rfl, nofun⟩
  | cons c rest ih =>
      cases hc : Text.digitValue? c with
      | none => exact ⟨[], by simp [readDigits, hc]⟩
      | some d =>
          obtain ⟨digits, hrest, hlength, hdigits⟩ := ih
          refine ⟨c :: digits, ?_, ?_, ?_⟩
          · simp only [readDigits, hc, List.cons_append]
            rw [← hrest]
          · simp [readDigits, hc, hlength]
          · intro e he
            rcases List.mem_cons.mp he with rfl | he
            · simp [Text.isDigit, hc]
            · exact hdigits e he

theorem readSign_cases (cs : List Char) :
    cs = (readSign cs).2 ∨ cs = '-' :: (readSign cs).2 ∨ cs = '+' :: (readSign cs).2 := by
  unfold readSign
  split
  · exact .inr (.inl rfl)
  · exact .inr (.inr rfl)
  · exact .inl rfl

theorem mem_of_mem_readSign (h : c ∈ (readSign cs).2) : c ∈ cs := by
  rcases readSign_cases cs with hcs | hcs | hcs
  · exact hcs ▸ h
  · exact hcs ▸ List.mem_cons_of_mem _ h
  · exact hcs ▸ List.mem_cons_of_mem _ h

/-- A sign is all that is taken off. -/
theorem mem_readSign (h : c ∈ cs) : c = '-' ∨ c = '+' ∨ c ∈ (readSign cs).2 := by
  rcases readSign_cases cs with hcs | hcs | hcs
  · rw [← hcs]
    exact .inr (.inr h)
  · rw [hcs] at h
    exact (List.mem_cons.mp h).imp_right .inr
  · rw [hcs] at h
    exact .inr (List.mem_cons.mp h)

theorem filter_readSign (cs : List Char) : (readSign cs).2.filter Text.isDigit = cs.filter Text.isDigit := by
  have hsigns : Text.isDigit '-' = false ∧ Text.isDigit '+' = false := by decide
  rcases readSign_cases cs with hcs | hcs | hcs
  · rw [← hcs]
  · conv => rhs; rw [hcs]
    simp [hsigns.1]
  · conv => rhs; rw [hcs]
    simp [hsigns.2]

end Decimal

namespace Numeral

open Text

/-- The characters of a number without a word. -/
def isDecimalChar (c : Char) : Bool := isDigit c || c = '.' || c = 'e' || c = 'E' || c = '+' || c = '-'

/-- Characters that a text which looks numeric may hold, but not one that is read. -/
def spoils (c : Char) : Bool := isSeparator c || c = '\u0130' || c = '\u0131'

variable {cs : List Char} {c : Char} {s : String}

theorem isDecimalChar_of_isDigit (h : isDigit c = true) : isDecimalChar c = true := by simp [isDecimalChar, h]

/-! ## The characters of numbers -/

theorem isDecimalChar_of_readDigits (hrest : ∀ c ∈ (Decimal.readDigits cs).2.2, isDecimalChar c = true) (h : c ∈ cs) :
    isDecimalChar c = true := by
  obtain ⟨digits, hcs, -, hdigits⟩ := Decimal.readDigits_split cs
  rw [hcs] at h
  rcases List.mem_append.mp h with h | h
  · exact isDecimalChar_of_isDigit (hdigits c h)
  · exact hrest c h

theorem isDecimalChar_of_readSign (hrest : ∀ c ∈ (Decimal.readSign cs).2, isDecimalChar c = true) (h : c ∈ cs) :
    isDecimalChar c = true := by
  rcases Decimal.mem_readSign h with rfl | rfl | h
  · decide
  · decide
  · exact hrest c h

theorem isDecimalChar_of_isExponent (he : isExponent cs = true) (h : c ∈ cs) : isDecimalChar c = true := by
  cases cs with
  | nil => cases h
  | cons d rest =>
      simp only [isExponent, Bool.and_eq_true, Bool.or_eq_true, decide_eq_true_eq] at he
      obtain ⟨hd, hdigits⟩ := he
      rcases List.mem_cons.mp h with rfl | h
      · rcases hd with rfl | rfl <;> decide
      · refine isDecimalChar_of_readSign (fun c hc => isDecimalChar_of_readDigits (fun c hc => ?_) hc) h
        split at hdigits
        · rename_i hread
          rw [hread] at hc
          cases hc
        · cases hdigits

theorem isDecimalChar_of_isDecimal (hd : isDecimal cs = true) (h : c ∈ cs) : isDecimalChar c = true := by
  refine isDecimalChar_of_readDigits (fun c hc => ?_) h
  have hpoint (rest : List Char) (hrest : isExponent (Decimal.readDigits rest).2.2 = true) (hc : c ∈ '.' :: rest) :
      isDecimalChar c = true := by
    rcases List.mem_cons.mp hc with rfl | hc
    · decide
    · exact isDecimalChar_of_readDigits (fun c hc => isDecimalChar_of_isExponent hrest hc) hc
  unfold isDecimal at hd
  split at hd
  · rename_i rest hread
    rw [hread] at hc
    split at hd
    · cases hd
    · rename_i hpart
      exact hpoint rest (by rw [hpart]; exact hd) hc
  · cases hd
  · rename_i hread
    rw [hread] at hc
    exact hpoint _ hd hc
  · rename_i hread
    rw [hread] at hc
    exact isDecimalChar_of_isExponent hd hc

/-! ## The two grammars -/

theorem isSome_readExponent? (cs : List Char) : (Decimal.readExponent? cs).isSome = isExponent cs := by
  cases cs with
  | nil => rfl
  | cons c rest =>
      simp only [Decimal.readExponent?, isExponent]
      by_cases hc : c = 'e' ∨ c = 'E'
      · have hletter : (decide (c = 'e') || decide (c = 'E')) = true := by simpa using hc
        rw [if_pos hc, hletter, Bool.true_and]
        split <;> simp_all
      · have hletter : (decide (c = 'e') || decide (c = 'E')) = false := by simpa using hc
        rw [if_neg hc, hletter, Bool.false_and]
        rfl

/-- Past its sign, a text is read as a floating-point number if it is a decimal or a word. -/
theorem isSome_readDouble? {body : List Char} (hb : body? s = some body) :
    (readDouble? s).isSome = (isDecimal (Decimal.readSign body).2 ||
      isWord ["inf", "infinity", "nan"] ((Decimal.readSign body).2.map Char.toLower)) := by
  simp only [readDouble?, hb, Option.bind_eq_bind, Option.bind_some]
  generalize Decimal.readSign body = signed
  obtain ⟨negative, cs⟩ := signed
  dsimp only
  have hwords : isWord ["inf", "infinity", "nan"] (cs.map Char.toLower) =
      (isWord ["inf", "infinity"] (cs.map Char.toLower) || isWord ["nan"] (cs.map Char.toLower)) := by
    simp [isWord, Bool.or_assoc]
  rw [hwords]
  split
  · rename_i hinf
    simp [hinf]
  · rename_i hinf
    split
    · rename_i hnan
      simp [hnan]
    · rename_i hnan
      rw [eq_false_of_ne_true hinf, eq_false_of_ne_true hnan, Bool.or_self, Bool.or_false]
      unfold isDecimal
      obtain ⟨whole, count, rest⟩ := Decimal.readDigits cs
      dsimp only
      split
      · rename_i more
        cases count with
        | zero =>
            rcases hmore : Decimal.readDigits more with ⟨part, places, last⟩
            cases places <;> simp [hmore, isSome_readExponent?]
        | succ count => simp [isSome_readExponent?]
      · rename_i hpoint
        cases count with
        | zero => simp
        | succ count => simp [isSome_readExponent?]

theorem isSome_readInt? {body : List Char} (hb : body? s = some body) : (readInt? s).isSome = true ↔
    (Decimal.readDigits (Decimal.readSign body).2).2.2 = [] ∧ 0 < (Decimal.readDigits (Decimal.readSign body).2).2.1 ∧
      (Decimal.readDigits (Decimal.readSign body).2).2.1 ≤ digitLimit := by
  simp only [readInt?, hb, Option.bind_eq_bind, Option.bind_some]
  generalize Decimal.readSign body = signed
  obtain ⟨negative, cs⟩ := signed
  dsimp only
  obtain ⟨value, count, rest⟩ := Decimal.readDigits cs
  dsimp only
  split
  · rename_i hread
    cases hread
    split <;> simp <;> omega
  · rename_i hread
    refine iff_of_false (by simp) ?_
    rintro ⟨rfl, hpos, -⟩
    obtain ⟨n, rfl⟩ := Nat.exists_eq_add_one_of_ne_zero (Nat.ne_of_gt hpos)
    exact hread _ _ rfl

theorem eq_filter_of_dropUnderscores? {last : Last} {rest : List Char} (h : dropUnderscores? last cs = some rest) :
    rest = cs.filter (· ≠ '_') := by
  induction cs generalizing last rest with
  | nil =>
      simp only [dropUnderscores?] at h
      split at h
      · cases h
      · cases h
        rfl
  | cons c cs ih =>
      simp only [dropUnderscores?] at h
      split at h
      · rename_i hc
        split at h
        · simpa [hc] using ih h
        · cases h
      · rename_i hc
        have hkeep : (c :: cs).filter (· ≠ '_') = c :: cs.filter (· ≠ '_') := by simp [hc]
        rw [hkeep]
        split at h
        · obtain ⟨found, hfound, rfl⟩ := Option.map_eq_some_iff.mp h
          rw [ih hfound]
        · split at h
          · cases h
          · obtain ⟨found, hfound, rfl⟩ := Option.map_eq_some_iff.mp h
            rw [ih hfound]

theorem eq_filter_of_body? {body : List Char} (hb : body? s = some body) :
    body = (trimBy (fun c => isBlank c && !isSeparator c) s.toList).filter (· ≠ '_') :=
  eq_filter_of_dropUnderscores? hb

theorem mem_of_isWord (h : isWord ["inf", "infinity", "nan"] cs = true) (hc : c ∈ cs) :
    c ∈ ['i', 'n', 'f', 't', 'y', 'a'] := by
  simp only [isWord, List.contains_iff_mem, List.mem_cons, List.not_mem_nil, or_false] at h
  have hwords : cs = ['i', 'n', 'f'] ∨ cs = ['i', 'n', 'f', 'i', 'n', 'i', 't', 'y'] ∨ cs = ['n', 'a', 'n'] := by
    refine h.imp (fun h => ?_) (Or.imp (fun h => ?_) fun h => ?_)
    all_goals simpa using congrArg String.toList h
  simp only [List.mem_cons, List.not_mem_nil, or_false]
  rcases hwords with rfl | rfl | rfl <;> simp only [List.mem_cons, List.not_mem_nil, or_false] at hc <;> grind

/-- The digits of an integer are all the digits that there are. -/
theorem count_of_rest_eq_nil (h : (Decimal.readDigits cs).2.2 = []) :
    (Decimal.readDigits cs).2.1 = (cs.filter isDigit).length := by
  obtain ⟨digits, hcs, hlength, hdigits⟩ := Decimal.readDigits_split cs
  rw [h, List.append_nil] at hcs
  rw [← hlength, hcs, List.filter_eq_self.mpr hdigits]

theorem looksIntegral_iff : looksIntegral s = true ↔
    (Decimal.readDigits (Decimal.readSign (trimBy isBlank s.toList)).2).2.2 = [] ∧
      0 < (Decimal.readDigits (Decimal.readSign (trimBy isBlank s.toList)).2).2.1 := by
  unfold looksIntegral
  generalize Decimal.readDigits (Decimal.readSign (trimBy isBlank s.toList)).2 = r
  obtain ⟨value, count, rest⟩ := r
  dsimp only
  split
  · rename_i hread
    cases hread
    simp
  · rename_i hread
    refine iff_of_false (by simp) ?_
    rintro ⟨rfl, hpos⟩
    obtain ⟨n, rfl⟩ := Nat.exists_eq_add_one_of_ne_zero (Nat.ne_of_gt hpos)
    exact hread _ _ rfl

/-! ## What spoils a numeral -/

theorem spoils_cases (h : spoils c = true) : isSeparator c = true ∨ c = '\u0130' ∨ c = '\u0131' := by
  simpa [spoils, or_assoc] using h

theorem toNat_of_isSeparator (h : isSeparator c = true) : 0x1C ≤ c.toNat ∧ c.toNat ≤ 0x1F := by
  simpa [isSeparator] using h

theorem not_isDecimalChar_of_spoils (h : spoils c = true) : isDecimalChar c = false := by
  rcases spoils_cases h with h | rfl | rfl
  · have hc := toNat_of_isSeparator h
    have hne (d : Char) (hd : 0x20 ≤ d.toNat) : c ≠ d := by
      rintro rfl
      omega
    simp [isDecimalChar, isDigit_of_small (by omega : c.toNat < 48), hne '.' (by decide), hne 'e' (by decide),
      hne 'E' (by decide), hne '+' (by decide), hne '-' (by decide)]
  · decide
  · decide

theorem toLower_of_spoils (h : spoils c = true) : c.toLower = c := by
  rcases spoils_cases h with h | rfl | rfl
  · refine dif_neg fun hupper => ?_
    have hlow : (65 : Nat) ≤ c.toNat := UInt32.le_iff_toNat_le.mp hupper.1
    have hc := toNat_of_isSeparator h
    omega
  · decide
  · decide

/-- What spoils a numeral is not trimmed away, and neither is it a sign or an underscore. -/
theorem mem_of_spoils {body : List Char} (hb : body? s = some body) (hc : spoils c = true) (h : c ∈ s.toList) :
    c ∈ (Decimal.readSign body).2 := by
  have hchar := not_isDecimalChar_of_spoils hc
  have htrim : (isBlank c && !isSeparator c) = false := by
    rcases spoils_cases hc with hc | rfl | rfl
    · simp [hc]
    · decide
    · decide
  have hunderscore : c ≠ '_' := by
    rintro rfl
    exact absurd hc (by decide)
  have hbody : c ∈ body := by
    rw [eq_filter_of_body? hb]
    exact List.mem_filter.mpr ⟨mem_trimBy_of_not htrim h, by simpa using hunderscore⟩
  rcases Decimal.mem_readSign hbody with rfl | rfl | hrest
  · cases hchar
  · cases hchar
  · exact hrest

theorem exists_body? (h : (read? s).isSome = true) : ∃ body, body? s = some body := by
  cases hb : body? s with
  | none => simp [read?, readInt?, readDouble?, hb] at h
  | some body => exact ⟨body, rfl⟩

theorem not_spoils_of_read? (h : (read? s).isSome = true) (hc : c ∈ s.toList) : spoils c = false := by
  refine Bool.eq_false_iff.mpr fun hspoils => ?_
  obtain ⟨body, hb⟩ := exists_body? h
  have hmem := mem_of_spoils hb hspoils hc
  have hchar := not_isDecimalChar_of_spoils hspoils
  unfold read? at h
  split at h
  · rw [Option.isSome_map, isSome_readInt? hb] at h
    have hdecimal := isDecimalChar_of_readDigits (fun c hc => by rw [h.1] at hc; cases hc) hmem
    rw [hchar] at hdecimal
    cases hdecimal
  · rw [Option.isSome_map, isSome_readDouble? hb, Bool.or_eq_true] at h
    rcases h with hdecimal | hword
    · rw [isDecimalChar_of_isDecimal hdecimal hmem] at hchar
      cases hchar
    · have hletter := mem_of_isWord hword (List.mem_map_of_mem hmem)
      rw [toLower_of_spoils hspoils] at hletter
      revert hspoils
      simp only [List.mem_cons, List.not_mem_nil, or_false] at hletter
      rcases hletter with rfl | rfl | rfl | rfl | rfl | rfl <;> decide

/-- All digits of a text stand past its sign, where it has a body. -/
theorem filter_isDigit_body {body : List Char} (hb : body? s = some body) :
    (Decimal.readSign body).2.filter isDigit = s.toList.filter isDigit := by
  have hblank (c : Char) (hc : (isBlank c && !isSeparator c) = true) : isDigit c = false :=
    not_isDigit_of_isBlank (Bool.and_eq_true_iff.mp hc).1
  have hunderscore (c : Char) : (isDigit c && decide (c ≠ '_')) = isDigit c := by
    by_cases hc : c = '_'
    · subst hc
      decide
    · simp [hc]
  rw [Decimal.filter_readSign, eq_filter_of_body? hb, List.filter_filter, funext hunderscore, filter_trimBy hblank]

/-- A text that looks numeric holds no underscore among the characters of its number. -/
theorem ne_underscore_of_looksNumeric (h : looksNumeric s = true) (hc : c ∈ trimBy isBlank s.toList) : c ≠ '_' := by
  rintro rfl
  have hmem : '_' ∈ (Decimal.readSign (trimBy isBlank s.toList)).2 :=
    ((Decimal.mem_readSign hc).resolve_left (by decide)).resolve_left (by decide)
  rw [looksNumeric, Bool.or_eq_true] at h
  rcases h with hdecimal | hword
  · exact absurd (isDecimalChar_of_isDecimal hdecimal hmem) (by decide)
  · exact absurd (mem_of_isWord hword (List.mem_map_of_mem hmem)) (by decide)

theorem body?_of_looksNumeric (h : looksNumeric s = true) (hsolid : ∀ c ∈ s.toList, isSeparator c = false) :
    body? s = some (trimBy isBlank s.toList) := by
  have htrim : trimBy (fun c => isBlank c && !isSeparator c) s.toList = trimBy isBlank s.toList :=
    trimBy_congr fun c hc => by simp [hsolid c hc]
  rw [body?, htrim]
  exact dropUnderscores?_eq (fun c hc => ne_underscore_of_looksNumeric h hc) (by decide)

/-- A text that looks numeric, but has no number: a character spoils it, or it is an integer of too many digits. -/
def isDeceptive (s : String) : Bool :=
  s.toList.any spoils || looksIntegral s && decide (digitLimit < (s.toList.filter isDigit).length)

theorem isSome_read?_iff (h : looksNumeric s = true) : (read? s).isSome = true ↔ isDeceptive s = false := by
  rw [isDeceptive, Bool.or_eq_false_iff, List.any_eq_false, Bool.and_eq_false_imp]
  constructor
  · intro hread
    refine ⟨fun c hc => by simp [not_spoils_of_read? hread hc], fun hint => ?_⟩
    obtain ⟨body, hb⟩ := exists_body? hread
    rw [read?, if_pos hint, Option.isSome_map, isSome_readInt? hb] at hread
    rw [count_of_rest_eq_nil hread.1, filter_isDigit_body hb] at hread
    simpa using hread.2.2
  · rintro ⟨hspoils, hlimit⟩
    have hplain (c : Char) (hc : c ∈ s.toList) : isSeparator c = false ∧ c ≠ '\u0130' ∧ c ≠ '\u0131' := by
      simpa [spoils, and_assoc] using hspoils c hc
    have hb := body?_of_looksNumeric h fun c hc => (hplain c hc).1
    unfold read?
    split
    · rename_i hint
      obtain ⟨hrest, hpos⟩ := looksIntegral_iff.mp hint
      rw [Option.isSome_map, isSome_readInt? hb]
      refine ⟨hrest, hpos, ?_⟩
      rw [count_of_rest_eq_nil hrest, filter_isDigit_body hb]
      simpa using hlimit hint
    · have hfold : (Decimal.readSign (trimBy isBlank s.toList)).2.map foldLetter =
          (Decimal.readSign (trimBy isBlank s.toList)).2.map Char.toLower := by
        refine List.map_congr_left fun c hc => ?_
        obtain ⟨-, hdotted, hdotless⟩ := hplain c (mem_of_mem_trimBy (Decimal.mem_of_mem_readSign hc))
        simp [foldLetter, hdotted, hdotless]
      rw [Option.isSome_map, isSome_readDouble? hb, ← hfold]
      exact h

end Numeral

end Introspect
