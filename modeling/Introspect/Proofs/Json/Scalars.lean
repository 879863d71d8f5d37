import Introspect.Proofs.Json.Grammar
/-!
Strings and numbers of JSON texts. A quoted text is a string of the grammar and is read back, and so is the text
of a finite number.
-/
namespace Introspect.Json

open Numeral

variable {c : Char} {cs rest s : List Char} {n : Nat}

/-! ## Strings -/

/-- What stands for a character between quotes: it is read as the character, and the grammar allows it. -/
structure Spells (cs : List Char) (c : Char) : Prop where
  read : ∀ rest, content? (cs ++ rest) = (content? rest).map fun found => (c :: found.1, found.2)
  valid : ∀ rest, Grammar.Content rest → Grammar.Content (cs ++ rest)

theorem spells_short {e : Char} (hu : e ≠ 'u') (he : escaped? e = some c)
    (hmem : e ∈ ['"', '\\', '/', 'b', 'f', 'n', 'r', 't']) : Spells ['\\', e] c where
  read rest := by
    change content? ('\\' :: e :: rest) = _
    rw [content?.eq_def]
    dsimp only
    rw [if_neg (by decide), if_pos rfl, if_neg hu, he]
    cases content? rest <;> rfl
  valid _ h := .escaped hmem h

theorem spells_self (hctrl : ¬ c.toNat < 0x20) (hquote : c ≠ '"') (hslash : c ≠ '\\') : Spells [c] c where
  read rest := by
    change content? (c :: rest) = _
    rw [content?.eq_def]
    dsimp only
    rw [if_neg hquote, if_neg hslash, if_neg hctrl]
    cases content? rest <;> rfl
  valid _ h := .unescaped (Nat.le_of_not_lt hctrl) hquote hslash h

/-- The four digits of a control character. -/
theorem unit?_hex : ∀ n : Fin 0x20, ∃ a b c d : Char, Text.hex 4 n = [a, b, c, d] ∧ unit? a b c d = some n.val ∧
    [a, b, c, d].all isHexDigit = true := by
  intro n
  refine ⟨'0', '0', if n.val < 16 then '0' else '1', (n.val % 16).digitChar, ?_⟩
  revert n
  decide

theorem spells_control (h : c.toNat < 0x20) : Spells ('\\' :: 'u' :: Text.hex 4 c.toNat) c := by
  obtain ⟨a, b, x, d, hhex, hunit, hdigits⟩ := unit?_hex ⟨c.toNat, h⟩
  rw [hhex]
  have hlength : [a, b, x, d].length = 4 := rfl
  refine ⟨fun rest => ?_, fun rest h => .numbered hlength (List.all_eq_true.mp hdigits) h⟩
  have hlead : isLead c.toNat = false := by simp [isLead]; omega
  have htrail : isTrail c.toNat = false := by simp [isTrail]; omega
  change content? ('\\' :: 'u' :: a :: b :: x :: d :: rest) = _
  rw [content?.eq_def]
  dsimp only
  rw [if_neg (by decide), if_pos rfl, if_pos rfl, hunit]
  simp only [Option.bind_eq_bind, Option.bind_some, hlead, htrail, Bool.false_eq_true, if_false]
  cases content? rest with
  | none => rfl
  | some found => simp [Char.ofNat_toNat]

theorem spells_escapeChar (c : Char) : Spells (escapeChar c) c := by
  have hchar {n : Nat} (h : c.toNat = n) : c = Char.ofNat n := by rw [← h, Char.ofNat_toNat]
  unfold escapeChar
  split
  · rename_i h
    rcases h with rfl | rfl <;> exact spells_short (by decide) (by decide) (by decide)
  · rename_i hneither
    obtain ⟨hquote, hslash⟩ := not_or.mp hneither
    split
    · rename_i h
      exact h ▸ spells_short (by decide) (by decide) (by decide)
    · split
      · rename_i h
        exact h ▸ spells_short (by decide) (by decide) (by decide)
      · split
        · rename_i h
          exact h ▸ spells_short (by decide) (by decide) (by decide)
        · split
          · rename_i h
            exact hchar h ▸ spells_short (by decide) (by decide) (by decide)
          · split
            · rename_i h
              exact hchar h ▸ spells_short (by decide) (by decide) (by decide)
            · split
              · rename_i h
                exact spells_control h
              · rename_i h
                exact spells_self h hquote hslash

theorem content?_escaped (s rest : List Char) : content? (s.flatMap escapeChar ++ '"' :: rest) = some (s, rest) := by
  induction s with
  | nil => rw [List.flatMap_nil, List.nil_append, content?.eq_def]; rfl
  | cons c s ih => rw [List.flatMap_cons, List.append_assoc, (spells_escapeChar c).read, ih, Option.map_some]

theorem content_escaped (s : List Char) : Grammar.Content (s.flatMap escapeChar) := by
  induction s with
  | nil => exact .nil
  | cons c s ih => exact (spells_escapeChar c).valid _ ih

theorem isString_quote (s : String) : Grammar.IsString (quote s) := .quoted (content_escaped s.toList)

theorem content?_quote (s : String) (rest : List Char) :
    ∃ inside, quote s ++ rest = '"' :: inside ∧ content? inside = some (s.toList, rest) :=
  ⟨s.toList.flatMap escapeChar ++ '"' :: rest, by simp [quote], content?_escaped s.toList rest⟩

/-! ## Numbers -/

theorem span_eq {p : Char → Bool} (hcs : ∀ c ∈ cs, p c = true) (hrest : ∀ c, rest.head? = some c → p c = false) :
    (cs ++ rest).takeWhile p = cs ∧ (cs ++ rest).dropWhile p = rest := by
  have hstop : rest.takeWhile p = [] ∧ rest.dropWhile p = rest := by
    cases rest with
    | nil => exact ⟨rfl, rfl⟩
    | cons c rest =>
        have hc := hrest c rfl
        exact ⟨List.takeWhile_cons_of_neg (by simp [hc]), List.dropWhile_cons_of_neg (by simp [hc])⟩
  rw [List.takeWhile_append_of_pos hcs, List.dropWhile_append_of_pos hcs, hstop.1, hstop.2, List.append_nil]
  exact ⟨rfl, rfl⟩

/-- A numeral is taken apart where it was put together. -/
theorem numeral?_signed {negative : Bool} {whole : List Char} (h : Digits whole) (hu : Unpadded whole)
    (hrest : ∀ c, rest.head? = some c → c.isDigit = false) :
    numeral? ((if negative then ['-'] else []) ++ (whole ++ rest)) =
      if rest.isEmpty then
        some (.int (if negative then -(Nat.ofDigitChars 10 whole 0 : Int) else Nat.ofDigitChars 10 whole 0))
      else if (dropFraction? rest).any isPower then
        (readDouble? (String.ofList ((if negative then ['-'] else []) ++ (whole ++ rest)))).map .float
      else none := by
  obtain ⟨c, more, hwhole⟩ := List.exists_cons_of_ne_nil h.nonempty
  have hdash : c ≠ '-' := fun he => absurd (h.digits c (hwhole ▸ List.mem_cons_self)) (by rw [he]; decide)
  have hunsigned : (if ((if negative then ['-'] else []) ++ (whole ++ rest)).head? = some '-' then
      ((if negative then ['-'] else []) ++ (whole ++ rest)).tail
      else (if negative then ['-'] else []) ++ (whole ++ rest)) = whole ++ rest := by
    cases negative <;> simp [hwhole, hdash]
  have hsign : ((if negative then ['-'] else []) ++ (whole ++ rest)).head? = some '-' ↔ negative = true := by
    cases negative <;> simp [hwhole, hdash]
  have hpadded : ¬ (whole.isEmpty = true ∨ whole.head? = some '0' ∧ whole ≠ ['0']) := by
    rintro (hnil | ⟨hzero, hone⟩)
    · exact h.nonempty (List.isEmpty_iff.mp hnil)
    · exact hu.elim hone fun hu => hu hzero
  obtain ⟨htake, hdrop⟩ := span_eq h.digits hrest
  unfold numeral?
  dsimp only
  rw [hunsigned, htake, hdrop, if_neg hpadded]
  simp only [hsign]

theorem numeral?_int (i : Int) : numeral? (toString i).toList = some (.int i) := by
  rw [toList_int, signed, ← List.append_nil (Nat.toDigits 10 i.natAbs), ← toList_nat,
    numeral?_signed (.nat _) (toList_nat _ ▸ unpadded_nat _) (by simp), toList_nat, Nat.ofDigitChars_ten_toDigits,
    List.isEmpty_nil, if_pos rfl]
  congr 2
  by_cases hi : i < 0
  · rw [if_pos (decide_eq_true hi)]
    omega
  · rw [if_neg (by simpa using hi)]
    omega

theorem isNumber_int (i : Int) : Grammar.IsNumber (toString i).toList := by
  have h : Grammar.IsNumber ((if decide (i < 0) then ['-'] else []) ++ ((toString i.natAbs).toList ++ ([] ++ []))) :=
    .parts (by split <;> simp) (.nat _) (toList_nat _ ▸ unpadded_nat _) .absent .absent
  rwa [List.append_nil, List.append_nil, toList_nat, ← signed, ← toList_int] at h

theorem isNumberChar_int (i : Int) : ∀ c ∈ (toString i).toList, isNumberChar c = true := by
  intro c hc
  rw [toList_int] at hc
  rcases isDigit_or_dash hc with rfl | hd
  · decide
  · simp [isNumberChar, hd]

variable {t : Spelling}

/-- What follows the digits of a spelling. -/
def decimals (t : Spelling) : List Char := (if t.part = [] then [] else '.' :: t.part) ++ t.tail

theorem not_isDigit_decimals (t : Spelling) (c : Char) (hc : (decimals t).head? = some c) : c.isDigit = false := by
  unfold decimals at hc
  split at hc
  · unfold Spelling.tail at hc
    split at hc
    · cases hc
    · cases hc
      decide
  · cases hc
    decide

theorem ending_ne_nil (h : t.Proper) : decimals t ≠ [] := by
  unfold decimals
  split
  · rename_i hpart
    obtain ⟨e, he⟩ := Option.isSome_iff_exists.mp (h.marked.resolve_left (fun hne => hne hpart))
    simp [Spelling.tail, he]
  · exact List.cons_ne_nil _ _

/-- An exponent is marked, and has a sign and digits. -/
theorem isPower_tail (t : Spelling) : isPower t.tail = true := by
  rcases Spelling.tail_cases t with h | ⟨sign, digits, hsign, hdigits, h⟩
  · rw [h]
    rfl
  · have hread : (Decimal.readSign (sign :: digits)).2 = digits := by rcases hsign with rfl | rfl <;> rfl
    have hne : digits.isEmpty = false := by simp [hdigits.nonempty]
    rw [h]
    simp only [isPower, hread, hne, List.all_eq_true.mpr hdigits.digits]
    decide

theorem not_isDigit_tail (t : Spelling) (c : Char) (hc : t.tail.head? = some c) : c.isDigit = false := by
  rcases Spelling.tail_cases t with h | ⟨sign, digits, -, -, h⟩
  · rw [h] at hc
    cases hc
  · rw [h] at hc
    cases hc
    decide

theorem dropFraction?_decimals (h : t.Proper) : (dropFraction? (decimals t)).any isPower = true := by
  unfold decimals
  by_cases hpart : t.part = []
  · have hdrop : dropFraction? t.tail = some t.tail := by
      rcases Spelling.tail_cases t with h | ⟨sign, digits, -, -, h⟩ <;> rw [h] <;> rfl
    rw [if_pos hpart, List.nil_append, hdrop]
    exact isPower_tail t
  · obtain ⟨htake, hdrop⟩ := span_eq h.part (not_isDigit_tail t)
    have hne : t.part.isEmpty = false := by simp [hpart]
    rw [if_neg hpart, List.cons_append, dropFraction?, htake, hdrop, hne]
    exact isPower_tail t

theorem fraction_decimals (h : t.Proper) :
    Grammar.Fraction (if t.part = [] then [] else '.' :: t.part) := by
  split
  · exact .absent
  · rename_i hpart
    exact .pointed ⟨hpart, h.part⟩

theorem exponent_tail (t : Spelling) : Grammar.Exponent t.tail := by
  rcases Spelling.tail_cases t with h | ⟨sign, digits, hsign, hdigits, h⟩
  · rw [h]
    exact .absent
  · rw [h]
    have hmem : [sign] ∈ [[], ['-'], ['+']] := by rcases hsign with rfl | rfl <;> decide
    exact .power (by decide) hmem hdigits

theorem isNumberChar_text {m : Nat} {q : Int} (h : Double.IsForm m q) (negative : Bool) (c : Char)
    (hc : c ∈ (Double.finite negative m q).text.toList) : isNumberChar c = true := by
  rcases cases_of_mem_text h hc with hdigit | hmark
  · simp [isNumberChar, hdigit]
  · have hall : ∀ c ∈ ['.', 'e', '+', '-'], isNumberChar c = true := List.all_eq_true.mp (by decide)
    exact hall c hmark

/-- The text of a finite number is a number of the grammar, and it is read back. -/
theorem numeral_text {m : Nat} {q : Int} (h : Double.IsForm m q) (negative : Bool) :
    let cs := (Double.finite negative m q).text.toList
    numeral? cs = some (.float (.finite negative m q)) ∧ Grammar.IsNumber cs ∧ ∀ c ∈ cs, isNumberChar c = true := by
  obtain ⟨t, s, hproper, hs, htext, -⟩ := exists_spelling_text h negative
  have hread := readDouble?_text (x := .finite negative m q) h
  have hcs : (Double.finite negative m q).text.toList = (if negative then ['-'] else []) ++ (t.whole ++ decimals t) := by
    rw [htext, String.toList_append, hs, Spelling.toList_sign]
    rfl
  have hback : String.ofList ((if negative then ['-'] else []) ++ (t.whole ++ decimals t)) = (Double.finite negative m q).text := by
    rw [← hcs, String.ofList_toList]
  have hdecimals : (decimals t).isEmpty = false := by simp [ending_ne_nil hproper]
  dsimp only
  rw [hcs]
  refine ⟨?_, ?_, ?_⟩
  · rw [numeral?_signed hproper.whole hproper.unpadded (not_isDigit_decimals t), hdecimals, hback, hread,
      if_neg (by decide), if_pos (dropFraction?_decimals hproper)]
    rfl
  · exact .parts (by split <;> simp) hproper.whole hproper.unpadded (fraction_decimals hproper) (exponent_tail t)
  · exact hcs ▸ isNumberChar_text h negative

end Introspect.Json
