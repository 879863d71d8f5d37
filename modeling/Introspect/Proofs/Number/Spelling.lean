import Introspect.Atom
import Introspect.Proofs.Number.Layout
import Introspect.Proofs.Number.Reading
import Introspect.Proofs.Number.Shortest
/-!
The text of a floating-point number is read back as the number, so different numbers have different texts.
-/
namespace Introspect.Numeral

open Double

variable {n : Nat} {cs : List Char} {d : Scientific}

/-! ## Digits -/

theorem ofDigitChars_zeros (count : Nat) (cs : List Char) :
    Nat.ofDigitChars 10 (List.replicate count '0' ++ cs) 0 = Nat.ofDigitChars 10 cs 0 := by
  induction count with
  | zero => rfl
  | succ count ih => rw [List.replicate_succ, List.cons_append, Nat.ofDigitChars_cons, ← ih]; rfl

theorem ofDigitChars_append_zeros (cs : List Char) (count : Nat) :
    Nat.ofDigitChars 10 (cs ++ List.replicate count '0') 0 = Nat.ofDigitChars 10 cs 0 * 10 ^ count := by
  induction count with
  | zero => simp
  | succ count ih =>
      rw [List.replicate_succ', ← List.append_assoc, Nat.ofDigitChars_append, ih]
      simp [Nat.ofDigitChars_cons, pow_succ]
      ring

theorem ofDigitChars_lt (h : ∀ c ∈ cs, c.isDigit = true) : Nat.ofDigitChars 10 cs 0 < 10 ^ cs.length := by
  induction cs with
  | nil => simp
  | cons c rest ih =>
      have hc := Text.toNat_of_isDigit (h c List.mem_cons_self)
      have hrest := ih fun c hc => h c (List.mem_cons_of_mem _ hc)
      rw [Nat.ofDigitChars_cons, Nat.ofDigitChars_eq_ofDigitChars_zero, List.length_cons, pow_succ]
      have hdigit : c.toNat - '0'.toNat ≤ 9 := by
        have hzero : '0'.toNat = 48 := rfl
        omega
      nlinarith

/-- Digits without a leading zero, or zero alone. -/
def Unpadded (cs : List Char) : Prop := cs = ['0'] ∨ cs.head? ≠ some '0'

theorem unpadded_nat (n : Nat) : Unpadded (Nat.toDigits 10 n) := by
  rcases Nat.eq_zero_or_pos n with rfl | hn
  · exact .inl rfl
  · refine .inr fun hhead => ?_
    obtain ⟨rest, hrest⟩ := List.head?_eq_some_iff.mp hhead
    have hdigits (c : Char) (hc : c ∈ rest) : c.isDigit = true :=
      Nat.isDigit_of_mem_toDigits (by decide) (by decide) (hrest ▸ List.mem_cons_of_mem _ hc)
    have hvalue := Nat.ofDigitChars_ten_toDigits (n := n)
    have hlow := pow_le_of_length hn
    rw [hrest] at hvalue hlow
    rw [Nat.ofDigitChars_cons] at hvalue
    have hlt := ofDigitChars_lt hdigits
    have hzero : 10 * 0 + ('0'.toNat - '0'.toNat) = 0 := rfl
    rw [hzero] at hvalue
    simp only [List.length_cons, Nat.add_sub_cancel] at hlow
    omega

theorem Unpadded.take (h : Unpadded cs) (hn : 0 < n) : Unpadded (cs.take n) := by
  obtain ⟨n, rfl⟩ := Nat.exists_eq_add_one_of_ne_zero hn.ne'
  refine h.imp (fun h => by rw [h, List.take_succ_cons, List.take_nil]) fun h hhead => h ?_
  rwa [List.head?_take, if_neg (Nat.succ_ne_zero n)] at hhead

theorem Unpadded.append (h : Unpadded cs) (hne : cs ≠ ['0']) (hnil : cs ≠ []) (rest : List Char) :
    Unpadded (cs ++ rest) := by
  refine .inr fun hhead => h.elim hne fun h => h ?_
  obtain ⟨c, cs, rfl⟩ := List.exists_cons_of_ne_nil hnil
  exact hhead

/-! ## Spellings -/

/-- A decimal in three parts: digits, more digits after a point, and an exponent. Without further digits
there is no point. -/
structure Spelling where
  whole : List Char
  part : List Char
  power? : Option Int

namespace Spelling

variable {s : Spelling}

def tail (s : Spelling) : List Char :=
  match s.power? with
  | none => []
  | some e => 'e' :: (exponentText e).toList

def chars (s : Spelling) : List Char :=
  s.whole ++ ((if s.part = [] then [] else '.' :: s.part) ++ s.tail)

def scientific (s : Spelling) : Scientific :=
  ⟨Nat.ofDigitChars 10 (s.whole ++ s.part) 0, s.power?.getD 0 - s.part.length⟩

/-- Digits on both sides of a point, or alone before an exponent. -/
structure Proper (s : Spelling) : Prop where
  whole : Digits s.whole
  unpadded : Unpadded s.whole
  part : ∀ c ∈ s.part, c.isDigit = true
  marked : s.part ≠ [] ∨ s.power?.isSome = true

/-- How digits are spelled before a power of ten. -/
def ofDigits (digits : List Char) (exponent : Int) : Spelling :=
  let size : Int := digits.length + exponent
  if -4 < size ∧ size ≤ 16 then
    if size ≤ 0 then ⟨['0'], List.replicate (-size).toNat '0' ++ digits, none⟩
    else if digits.length ≤ size then ⟨digits ++ List.replicate (size - digits.length).toNat '0', ['0'], none⟩
    else ⟨digits.take size.toNat, digits.drop size.toNat, none⟩
  else ⟨digits.take 1, digits.drop 1, some (size - 1)⟩

variable {digits : List Char} {exponent : Int}

theorem proper_ofDigits (h : Digits digits) (hu : Unpadded digits) (hzero : digits = ['0'] → exponent = 0) :
    (ofDigits digits exponent).Proper := by
  unfold ofDigits
  dsimp only
  split
  · split
    · have hpart := h.zeros_append (-(digits.length + exponent)).toNat
      exact ⟨.nat 0, .inl rfl, hpart.digits, .inl hpart.nonempty⟩
    · split
      · rename_i hlarge
        refine ⟨h.append_zeros _, ?_, (Digits.nat 0).digits, .inl (List.cons_ne_nil _ _)⟩
        by_cases hone : digits = ['0']
        · rw [hone, hzero hone]
          exact .inl rfl
        · exact hu.append hone h.nonempty _
      · rename_i hsize hlarge
        have hpart : Digits (digits.drop (digits.length + exponent).toNat) := h.drop (by omega)
        exact ⟨h.take (by omega), hu.take (by omega), hpart.digits, .inl hpart.nonempty⟩
  · exact ⟨h.take (by decide), hu.take (by decide), fun c hc => h.digits c (List.mem_of_mem_drop hc), .inr rfl⟩

/-- The three parts of a spelling have the value of the digits. -/
theorem value_ofDigits (digits : List Char) (exponent : Int) :
    (ofDigits digits exponent).scientific.value = Scientific.value ⟨Nat.ofDigitChars 10 digits 0, exponent⟩ := by
  unfold ofDigits
  dsimp only
  split
  · split
    · rename_i hsize
      have hplaces : (0 : Int) - ((-(digits.length + exponent)).toNat + digits.length : Nat) = exponent := by omega
      simp only [scientific, Option.getD_none, List.length_append, List.length_replicate, hplaces]
      rw [← List.append_assoc, ← List.replicate_one (a := '0'), List.replicate_append_replicate, ofDigitChars_zeros]
    · split
      · rename_i hlarge
        have hcount : exponent = (digits.length + exponent - digits.length).toNat := by omega
        generalize (digits.length + exponent - digits.length).toNat = count at hcount ⊢
        subst hcount
        rw [scientific, List.append_assoc, ← List.replicate_one (a := '0'), List.replicate_append_replicate,
          ofDigitChars_append_zeros]
        simp only [Scientific.value, Option.getD_none, List.length_replicate, zpow_natCast, Nat.cast_mul, Nat.cast_pow,
          Nat.cast_ofNat, Nat.cast_one, zero_sub, zpow_neg, zpow_one, pow_succ]
        ring
      · rename_i hsize hlarge
        have hplaces : (0 : Int) - (digits.length - (digits.length + exponent).toNat : Nat) = exponent := by omega
        simp only [scientific, Option.getD_none, List.take_append_drop, List.length_drop, hplaces]
  · by_cases hnil : digits = []
    · subst hnil
      simp [scientific, Scientific.value, Nat.ofDigitChars]
    · have hlength : 0 < digits.length := List.length_pos_of_ne_nil hnil
      have hplaces : (digits.length + exponent - 1 : Int) - (digits.length - 1 : Nat) = exponent := by omega
      simp only [scientific, Option.getD_some, List.take_append_drop, List.length_drop, hplaces]

theorem Proper.exists_mark (h : s.Proper) : ∃ c ∈ s.chars, c = '.' ∨ c = 'e' := by
  unfold Spelling.chars Spelling.tail
  by_cases hpart : s.part = []
  · obtain ⟨e, he⟩ := Option.isSome_iff_exists.mp (h.marked.resolve_left (not_not_intro hpart))
    exact ⟨'e', by simp [he], .inr rfl⟩
  · exact ⟨'.', by simp [hpart], .inl rfl⟩

end Spelling

/-- A number is laid out as its digits are spelled. -/
theorem toList_layout (d : Scientific) :
    (layout ".0" d).toList = (Spelling.ofDigits (toString d.digits).toList d.exponent).chars := by
  have hd := Digits.nat d.digits
  have hlength : (toString d.digits).length = (toString d.digits).toList.length := String.length_toList.symm
  unfold layout Spelling.ofDigits
  dsimp only
  rw [hlength]
  generalize toString d.digits = digits at hd ⊢
  split
  · split
    · simp [Spelling.chars, Spelling.tail, hd.nonempty]
    · split
      · simp [Spelling.chars, Spelling.tail]
      · rename_i hsize hlarge
        have hdrop := (hd.drop (by omega : (digits.toList.length + d.exponent).toNat < digits.toList.length)).nonempty
        simp only [Spelling.chars, Spelling.tail, if_neg hdrop, String.toList_append, String.toList_ofList,
          List.append_nil, List.append_assoc]
        rfl
  · cases hdrop : digits.toList.drop 1 with
    | nil => simp [Spelling.chars, Spelling.tail]
    | cons c rest => simp [Spelling.chars, Spelling.tail]

theorem value_spelling (d : Scientific) :
    (Spelling.ofDigits (toString d.digits).toList d.exponent).scientific.value = d.value := by
  rw [Spelling.value_ofDigits, toList_nat, Nat.ofDigitChars_ten_toDigits]

theorem proper_spelling (hzero : d.digits = 0 → d.exponent = 0) :
    (Spelling.ofDigits (toString d.digits).toList d.exponent).Proper := by
  have hunpadded := unpadded_nat d.digits
  rw [← toList_nat] at hunpadded
  refine Spelling.proper_ofDigits (.nat d.digits) hunpadded fun hone => hzero ?_
  rw [toList_nat] at hone
  rw [← Nat.ofDigitChars_ten_toDigits (n := d.digits), hone]
  rfl

/-! ## Reading -/

theorem exists_exponentText (e : Int) : ∃ cs, Digits cs ∧ Nat.ofDigitChars 10 cs 0 = e.natAbs ∧
    (exponentText e).toList = (if e < 0 then '-' else '+') :: cs := by
  refine ⟨(if (toString e.natAbs).length < 2 then "0" ++ toString e.natAbs else toString e.natAbs).toList, ?_, ?_, ?_⟩
  · split
    · rw [String.toList_append]
      exact (Digits.nat e.natAbs).zeros_append 1
    · exact .nat e.natAbs
  · split
    · rw [String.toList_append, toList_nat]
      exact (ofDigitChars_zeros 1 _).trans Nat.ofDigitChars_ten_toDigits
    · rw [toList_nat, Nat.ofDigitChars_ten_toDigits]
  · unfold exponentText
    dsimp only
    rw [String.toList_append]
    by_cases he : e < 0
    · rw [if_pos he, if_pos he]
      rfl
    · rw [if_neg he, if_neg he]
      rfl

theorem readExponent?_exponentText (e : Int) : Decimal.readExponent? ('e' :: (exponentText e).toList) = some e := by
  obtain ⟨cs, hcs, hvalue, htext⟩ := exists_exponentText e
  obtain ⟨count, hcount⟩ := hcs.exists_length
  have hread := Decimal.readDigits_of_isDigit hcs.digits
  rw [hvalue, hcount] at hread
  rw [htext, Decimal.readExponent?, if_pos (.inl rfl)]
  by_cases he : e < 0
  · have hsign : Decimal.readSign ('-' :: cs) = (true, cs) := rfl
    simp only [if_pos he, hsign, hread, if_true]
    exact congrArg some (by omega)
  · have hsign : Decimal.readSign ('+' :: cs) = (false, cs) := rfl
    simp only [if_neg he, hsign, hread, Bool.false_eq_true, if_false]
    exact congrArg some (by omega)

namespace Spelling

variable {s : Spelling}

theorem tail_cases (s : Spelling) :
    s.tail = [] ∨ ∃ sign digits, (sign = '-' ∨ sign = '+') ∧ Digits digits ∧ s.tail = 'e' :: sign :: digits := by
  unfold Spelling.tail
  split
  · exact .inl rfl
  · rename_i e _
    obtain ⟨cs, hcs, -, htext⟩ := exists_exponentText e
    refine .inr ⟨if e < 0 then '-' else '+', cs, ?_, hcs, by rw [htext]⟩
    split
    · exact .inl rfl
    · exact .inr rfl

theorem Tail.tail (s : Spelling) : Tail s.tail := by
  unfold Spelling.tail
  split
  · exact .nil
  · exact .exponentText _

theorem readExponent?_tail (s : Spelling) : Decimal.readExponent? s.tail = some (s.power?.getD 0) := by
  unfold Spelling.tail
  split
  · rename_i h
    rw [h]
    rfl
  · rename_i h
    rw [h]
    exact readExponent?_exponentText _

theorem Proper.cases_of_mem (h : s.Proper) {c : Char} (hc : c ∈ s.chars) : c.isDigit = true ∨ c ∈ ['.', 'e', '+', '-'] := by
  unfold Spelling.chars at hc
  rcases List.mem_append.mp hc with hc | hc
  · exact .inl (h.whole.digits c hc)
  · rcases List.mem_append.mp hc with hc | hc
    · split at hc
      · cases hc
      · rcases List.mem_cons.mp hc with rfl | hc
        · exact .inr (by decide)
        · exact .inl (h.part c hc)
    · rcases tail_cases s with htail | ⟨sign, digits, hsign, hdigits, htail⟩
      · rw [htail] at hc
        cases hc
      · rw [htail] at hc
        rcases List.mem_cons.mp hc with rfl | hc
        · exact .inr (by decide)
        · rcases List.mem_cons.mp hc with rfl | hc
          · exact .inr (by rcases hsign with rfl | rfl <;> decide)
          · exact .inl (hdigits.digits c hc)

theorem Proper.unsigned (h : s.Proper) : Unsigned s.chars := by
  unfold Spelling.chars
  by_cases hpart : s.part = []
  · rw [if_pos hpart]
    exact .of_whole h.whole (Tail.tail s)
  · rw [if_neg hpart]
    exact .of_pointed h.whole ⟨hpart, h.part⟩ (Tail.tail s)

theorem Proper.isDecimalChar (h : s.Proper) {c : Char} (hc : c ∈ s.chars) : isDecimalChar c = true :=
  isDecimalChar_of_isDecimal h.unsigned.decimal hc

theorem toList_sign (negative : Bool) : (Double.sign negative).toList = if negative then ['-'] else [] := by
  cases negative <;> rfl

theorem Proper.body?_signed (h : s.Proper) {t : String} (ht : t.toList = s.chars) (negative : Bool) :
    body? (Double.sign negative ++ t) = some ((if negative then ['-'] else []) ++ s.chars) := by
  have hchars : ∀ c ∈ (if negative then ['-'] else []) ++ s.chars, Text.isBlank c = false ∧ c ≠ '_' := by
    intro c hc
    rcases List.mem_append.mp hc with hc | hc
    · split at hc
      · rw [List.mem_singleton.mp hc]
        decide
      · cases hc
    · refine ⟨h.unsigned.solid c hc, ?_⟩
      rintro rfl
      exact absurd (h.isDecimalChar hc) (by decide)
  rw [body?, String.toList_append, toList_sign, ht,
    Text.trimBy_of_not fun c hc => by rw [(hchars c hc).1, Bool.false_and]]
  exact dropUnderscores?_eq (fun c hc => (hchars c hc).2) (by decide)

theorem Proper.exists_digit (h : s.Proper) : ∃ c ∈ s.chars, c.isDigit = true := by
  obtain ⟨c, rest, hwhole⟩ := List.exists_cons_of_ne_nil h.whole.nonempty
  exact ⟨c, by simp [Spelling.chars, hwhole], h.whole.digits c (hwhole ▸ List.mem_cons_self)⟩

/-- A spelling is no word, for it holds a digit. -/
theorem Proper.isWord_lower (h : s.Proper) {words : List String} (hw : words ⊆ ["inf", "infinity", "nan"]) :
    isWord words (s.chars.map Char.toLower) = false := by
  refine Bool.eq_false_iff.mpr fun hword => ?_
  obtain ⟨c, hc, hdigit⟩ := h.exists_digit
  have hword : isWord ["inf", "infinity", "nan"] (s.chars.map Char.toLower) = true :=
    List.contains_iff_mem.mpr (hw (List.contains_iff_mem.mp hword))
  have hletter := mem_of_isWord hword (List.mem_map_of_mem hc)
  have hrange := Text.toNat_of_isDigit hdigit
  have hlower : c.toLower = c := dif_neg fun hupper => by
    have hlow : (65 : Nat) ≤ c.toNat := UInt32.le_iff_toNat_le.mp hupper.1
    omega
  rw [hlower] at hletter
  simp only [List.mem_cons, List.not_mem_nil, or_false] at hletter
  rcases hletter with rfl | rfl | rfl | rfl | rfl | rfl <;> exact absurd hdigit (by decide)

/-- The digits of both parts are read as one number. -/
theorem Proper.readDouble? (h : s.Proper) {t : String} (ht : t.toList = s.chars) (negative : Bool) :
    readDouble? (Double.sign negative ++ t) =
      some (.ofDecimal negative s.scientific.digits s.scientific.exponent) := by
  have hsign : Decimal.readSign ((if negative then ['-'] else []) ++ s.chars) = (negative, s.chars) := by
    cases negative with
    | true => rfl
    | false => exact h.unsigned.unsigned
  obtain ⟨count, hcount⟩ := h.whole.exists_length
  have hinf : isWord ["inf", "infinity"] (s.chars.map Char.toLower) = false := h.isWord_lower (by simp)
  have hnan : isWord ["nan"] (s.chars.map Char.toLower) = false := h.isWord_lower (by simp)
  rw [Numeral.readDouble?, h.body?_signed ht]
  simp only [Option.bind_eq_bind, Option.bind_some, hsign, hinf, hnan, Bool.false_eq_true, if_false]
  unfold Spelling.chars
  by_cases hpart : s.part = []
  · rw [if_pos hpart, List.nil_append, Decimal.readDigits_append h.whole.digits (Tail.tail s).readDigits, hcount]
    have hexponent := readExponent?_tail s
    have hvalue : s.scientific = ⟨Nat.ofDigitChars 10 s.whole 0, s.power?.getD 0⟩ := by
      simp [scientific, hpart]
    rw [hvalue]
    rcases exponent_cases (Tail.tail s).exponent with htail | ⟨rest, htail | htail⟩
    all_goals
      rw [htail] at hexponent ⊢
      dsimp only
      rw [if_neg (by omega)]
      refine (congrArg (Option.map fun e => ofDecimal negative (Nat.ofDigitChars 10 s.whole 0) (e - (0 : Nat)))
        hexponent).trans ?_
      rw [Option.map_some, Nat.cast_zero, Int.sub_zero]
  · have hpoint : Decimal.readDigits ('.' :: (s.part ++ s.tail)) = (0, 0, '.' :: (s.part ++ s.tail)) := rfl
    rw [if_neg hpart, List.cons_append, Decimal.readDigits_append h.whole.digits hpoint, hcount]
    simp only [Decimal.readDigits_append h.part (Tail.tail s).readDigits, readExponent?_tail, Option.map_some, scientific]
    rw [if_neg (by omega), Nat.ofDigitChars_append, @Nat.ofDigitChars_eq_ofDigitChars_zero s.part (Nat.ofDigitChars 10 s.whole 0),
      Nat.pow_eq, Nat.mul_comm]

end Spelling

/-- The text of a finite number is a sign and a spelling of its value. -/
theorem exists_spelling_text {m : Nat} {q : Int} (h : IsForm m q) (negative : Bool) :
    ∃ (s : Spelling) (t : String), s.Proper ∧ t.toList = s.chars ∧
      (Double.finite negative m q).text = Double.sign negative ++ t ∧
      ofDecimal negative s.scientific.digits s.scientific.exponent = .finite negative m q := by
  rcases Nat.eq_zero_or_pos m with rfl | hm
  · have hq : q = -1074 := h.full.resolve_left (by decide)
    refine ⟨_, _, proper_spelling (d := ⟨0, 0⟩) fun _ => rfl, toList_layout ⟨0, 0⟩, ?_, ?_⟩
    · rw [Double.text, textWith, if_pos rfl]
    · rw [hq]
      rfl
  · have hrounds := rounds_shortest h hm
    have hpos := Scientific.digits_pos (hrounds.pos hm)
    refine ⟨_, _, proper_spelling (d := shortest m q) fun h => absurd h hpos.ne', toList_layout _, ?_, ?_⟩
    · rw [Double.text, textWith, if_neg hm.ne']
    · exact ofDecimal_eq h hm ((value_spelling _).symm ▸ hrounds) negative

/-- What the text of a finite number is made of. -/
theorem cases_of_mem_text {negative : Bool} {m : Nat} {q : Int} (h : IsForm m q) {c : Char}
    (hc : c ∈ (Double.finite negative m q).text.toList) : c.isDigit = true ∨ c ∈ ['.', 'e', '+', '-'] := by
  obtain ⟨s, t, hproper, ht, htext, -⟩ := exists_spelling_text h negative
  rw [htext, String.toList_append, ht, Spelling.toList_sign] at hc
  rcases List.mem_append.mp hc with hc | hc
  · split at hc
    · rw [List.mem_singleton.mp hc]
      exact .inr (by decide)
    · cases hc
  · exact hproper.cases_of_mem hc

/-- The text of a number is read as the number. -/
theorem readDouble?_text {x : Double} (h : x.IsNormal) : readDouble? x.text = some x := by
  cases x with
  | nan => decide
  | infinite negative => cases negative <;> decide
  | finite negative m q =>
      obtain ⟨s, t, hproper, ht, htext, hvalue⟩ := exists_spelling_text h negative
      rw [htext, hproper.readDouble? ht, hvalue]

theorem text_inj {x y : Double} (hx : x.IsNormal) (hy : y.IsNormal) (h : x.text = y.text) : x = y :=
  Option.some.inj (by rw [← readDouble?_text hx, ← readDouble?_text hy, h])

/-- What tells the text of a number from that of an integer. -/
theorem exists_mark_text {x : Double} (h : x.IsNormal) : ∃ c ∈ x.text.toList, c ≠ '-' ∧ c.isDigit = false := by
  cases x with
  | nan => exact ⟨'n', by decide, by decide⟩
  | infinite negative => cases negative <;> exact ⟨'i', by decide, by decide⟩
  | finite negative m q =>
      obtain ⟨s, t, hproper, ht, htext, -⟩ := exists_spelling_text h negative
      obtain ⟨c, hc, hmark⟩ := hproper.exists_mark
      refine ⟨c, ?_, by rcases hmark with rfl | rfl <;> decide⟩
      rw [htext, String.toList_append, ht]
      exact List.mem_append_right _ hc

theorem text_ne_int {x : Double} (h : x.IsNormal) (i : Int) : x.text ≠ toString i := by
  intro heq
  obtain ⟨c, hc, hdash, hdigit⟩ := exists_mark_text h
  rw [heq, toList_int] at hc
  rcases isDigit_or_dash hc with rfl | hdigit'
  · exact hdash rfl
  · rw [hdigit] at hdigit'
    cases hdigit'

end Introspect.Numeral

namespace Introspect.Number

/-- Integers, and floating-point numbers in their one form. -/
def IsPrimitive : Number → Prop
  | .int _ => True
  | .float x => x.IsNormal
  | _ => False

variable {n m : Number}

theorem looksNumeric_text (h : n.IsPrimitive) : Numeral.looksNumeric n.text = true := by
  cases n with
  | int i => exact Numeral.looksNumeric_int i
  | float x => exact Numeral.looksNumeric_text x
  | _ => exact absurd h id

theorem text_inj (hn : n.IsPrimitive) (hm : m.IsPrimitive) (h : n.text = m.text) : n = m := by
  cases n with
  | int i =>
      cases m with
      | int j => rw [Numeral.toList_int_inj (congrArg String.toList h)]
      | float y => exact absurd h.symm (Numeral.text_ne_int hm i)
      | _ => exact absurd hm id
  | float x =>
      cases m with
      | int j => exact absurd h (Numeral.text_ne_int hn j)
      | float y => rw [Numeral.text_inj hn hm h]
      | _ => exact absurd hm id
  | _ => exact absurd hn id

theorem display_eq_text (h : n.IsPrimitive) : n.display = n.text := by
  cases n with
  | int i | float x => rfl
  | _ => exact absurd h id

/-- No word that is no number is the text of one. -/
theorem text_ne_word {word : String} (h : n.IsPrimitive) (hword : Numeral.looksNumeric word = false) : n.text ≠ word :=
  fun heq => by
    rw [← heq, looksNumeric_text h] at hword
    cases hword

end Introspect.Number

namespace Introspect.Atom

theorem eq_of_written {write : Number → String} {n : Number} {s : String} (h : written write n = .ok s) : s = write n := by
  unfold written at h
  split at h <;> cases h
  rfl

/-! ## Words -/

/-- None, truth values, and integers and floating-point numbers. -/
def IsWord : Atom → Prop
  | .none | .bool _ => True
  | .number n => n.IsPrimitive
  | _ => False

def words : List Atom := [.none, .bool true, .bool false]

variable {a b : Atom}

theorem isWord_cases (h : a.IsWord) : a ∈ words ∨ ∃ n, a = .number n ∧ n.IsPrimitive := by
  cases a with
  | none => exact .inl (by decide)
  | bool b => cases b <;> exact .inl (by decide)
  | number n => exact .inr ⟨n, rfl, h⟩
  | _ => exact absurd h id

/-- Where numbers stand for themselves, and none and the truth values for three words that are no numbers, different
values stand for different texts. -/
theorem word_inj {shows : Atom → String} (hnumber : ∀ n, shows (.number n) = n.text)
    (hwords : ∀ a ∈ words, Numeral.looksNumeric (shows a) = false) (hnodup : (words.map shows).Nodup) (ha : a.IsWord)
    (hb : b.IsWord) (h : shows a = shows b) : a = b := by
  rcases isWord_cases ha with hwa | ⟨n, rfl, hn⟩ <;> rcases isWord_cases hb with hwb | ⟨m, rfl, hm⟩
  · exact List.inj_on_of_nodup_map hnodup hwa hwb h
  · exact absurd (hnumber m ▸ h.symm) (Number.text_ne_word hm (hwords a hwa))
  · exact absurd (hnumber n ▸ h) (Number.text_ne_word hn (hwords b hwb))
  · rw [hnumber, hnumber] at h
    rw [Number.text_inj hn hm h]

end Introspect.Atom
