import Mathlib.Data.Nat.Digits.Lemmas
import Introspect.Text.Quoted
/-!
Quoted texts are read back: each escape stands for one character, and the closing quote for none. So a quoted text
in front of others shows where it ends and what it quotes.
-/
namespace Introspect.Text

variable {c q : Char} {cs cs' rest rest' : List Char} {n width : Nat}

/-! ## Hexadecimal digits -/

def digitValue (c : Char) : Nat := if c.isDigit then c.toNat - 48 else c.toNat - 87

/-- The number that hexadecimal digits stand for. -/
def hexValue (cs : List Char) : Nat := cs.foldl (fun n c => 16 * n + digitValue c) 0

theorem hexValue_append_singleton (cs : List Char) (c : Char) : hexValue (cs ++ [c]) = 16 * hexValue cs + digitValue c := by
  rw [hexValue, List.foldl_append]
  rfl

theorem hexValue_zeros (count : Nat) (cs : List Char) : hexValue (List.replicate count '0' ++ cs) = hexValue cs := by
  induction count with
  | zero => rfl
  | succ count ih => exact ih

theorem digitValue_digitChar (h : n < 16) : digitValue n.digitChar = n := by
  revert n
  decide

theorem hexValue_toDigits (n : Nat) : hexValue (Nat.toDigits 16 n) = n := by
  induction n using Nat.strong_induction_on with
  | _ n ih =>
    rw [Nat.toDigits_eq_if (by decide)]
    split
    · rename_i h
      exact (Nat.zero_add _).trans (digitValue_digitChar h)
    · rename_i h
      rw [hexValue_append_singleton, ih _ (by omega), digitValue_digitChar (Nat.mod_lt n (by decide))]
      omega

theorem hexValue_hex (width n : Nat) : hexValue (hex width n) = n := by
  rw [hex, hexValue_zeros, hexValue_toDigits]

theorem length_hex (hwidth : 0 < width) (h : n < 16 ^ width) : (hex width n).length = width := by
  have hdigits := (Nat.length_toDigits_le_iff (by decide) hwidth).mpr h
  rw [hex, List.length_append, List.length_replicate]
  omega

/-! ## Escapes -/

/-- A character by the given number of digits, and what follows them. -/
def numbered (width : Nat) (cs : List Char) : Char × List Char := (Char.ofNat (hexValue (cs.take width)), cs.drop width)

/-- The character in front, which may be escaped, and what follows it. -/
def unescape? : List Char → Option (Char × List Char)
  | [] => none
  | '\\' :: e :: rest =>
    some <| if e = 'n' then ('\n', rest)
      else if e = 'r' then ('\r', rest)
      else if e = 't' then ('\t', rest)
      else if e = 'x' then numbered 2 rest
      else if e = 'u' then numbered 4 rest
      else if e = 'U' then numbered 8 rest
      else (e, rest)
  | c :: rest => some (c, rest)

theorem numbered_hex (hwidth : 0 < width) (h : c.toNat < 16 ^ width) : numbered width (hex width c.toNat ++ rest) = (c, rest) := by
  have hlength := length_hex hwidth h
  rw [numbered, List.take_left' hlength, List.drop_left' hlength, hexValue_hex, Char.ofNat_toNat]

/-- The two characters that quotes may be. -/
def IsQuote (q : Char) : Prop := q = '"' ∨ q = apostrophe

theorem isQuote_quoteFor (cs : List Char) : IsQuote (quoteFor cs) := by
  unfold quoteFor
  split
  · exact .inl rfl
  · exact .inr rfl

theorem toNat_lt (c : Char) : c.toNat < 16 ^ 8 := by
  have h : c.val.toNat < 4294967296 := c.val.toNat_lt
  exact h

theorem unescape?_escapeChar (hq : IsQuote q) (c : Char) (rest : List Char) :
    unescape? (escapeChar q c ++ rest) = some (c, rest) := by
  unfold escapeChar escapeCommon?
  split
  · rename_i h
    rcases h with rfl | rfl
    · rcases hq with rfl | rfl <;> rfl
    · rfl
  · rename_i hneither
    obtain ⟨-, hslash⟩ := not_or.mp hneither
    split
    · rename_i h
      rw [h]
      rfl
    · split
      · rename_i h
        rw [h]
        rfl
      · split
        · rename_i h
          rw [h]
          rfl
        · rw [Option.getD_none]
          split
          · rw [List.singleton_append, unescape?]
            exact fun _ _ h => absurd h hslash
          · split
            · exact congrArg some (numbered_hex (by decide) (by omega))
            · split
              · exact congrArg some (numbered_hex (by decide) (by omega))
              · exact congrArg some (numbered_hex (by decide) (toNat_lt c))

/-- No escape begins with the quote. -/
theorem escapeChar_ne_quote (hq : IsQuote q) (c : Char) (rest : List Char) : escapeChar q c ++ rest ≠ q :: rest' := by
  intro h
  have hslash : '\\' ≠ q := by rcases hq with rfl | rfl <;> decide
  have hhead (more : List Char) : '\\' :: more ≠ q :: rest' := fun h => hslash (List.cons.inj h).1
  unfold escapeChar escapeCommon? at h
  split at h
  · exact hhead _ h
  · rename_i hneither
    split at h
    · exact hhead _ h
    · split at h
      · exact hhead _ h
      · split at h
        · exact hhead _ h
        · rw [Option.getD_none] at h
          split at h
          · exact (not_or.mp hneither).1 (List.cons.inj h).1
          · split at h
            · exact hhead _ h
            · split at h <;> exact hhead _ h

/-! ## Quotes -/

/-- What is quoted, and what follows the closing quote. -/
theorem escaped_inj (hq : IsQuote q)
    (h : cs.flatMap (escapeChar q) ++ q :: rest = cs'.flatMap (escapeChar q) ++ q :: rest') : cs = cs' ∧ rest = rest' := by
  induction cs generalizing cs' with
  | nil =>
      cases cs' with
      | nil => exact ⟨rfl, (List.cons.inj h).2⟩
      | cons c' more' =>
          rw [List.flatMap_cons, List.append_assoc] at h
          exact absurd h.symm (escapeChar_ne_quote hq c' _)
  | cons c more ih =>
      rw [List.flatMap_cons, List.append_assoc] at h
      cases cs' with
      | nil => exact absurd h (escapeChar_ne_quote hq c _)
      | cons c' more' =>
          rw [List.flatMap_cons, List.append_assoc] at h
          have hread := congrArg unescape? h
          rw [unescape?_escapeChar hq, unescape?_escapeChar hq] at hread
          obtain ⟨hc, hmore⟩ := Prod.mk.inj (Option.some.inj hread)
          obtain ⟨hmore, hrest⟩ := ih hmore
          exact ⟨by rw [hc, hmore], hrest⟩

theorem toList_quoted (s : String) :
    (quoted s).toList = quoteFor s.toList :: (s.toList.flatMap (escapeChar (quoteFor s.toList)) ++ [quoteFor s.toList]) := by
  rw [quoted, String.toList_ofList, List.cons_append]

/-- A quoted text shows what it quotes and where it ends. -/
theorem quoted_inj {s s' : String} (h : (quoted s).toList ++ rest = (quoted s').toList ++ rest') : s = s' ∧ rest = rest' := by
  rw [toList_quoted, toList_quoted, List.cons_append, List.cons_append, List.append_assoc, List.append_assoc] at h
  obtain ⟨hquote, h⟩ := List.cons.inj h
  rw [← hquote] at h
  obtain ⟨htext, hrest⟩ := escaped_inj (isQuote_quoteFor _) h
  exact ⟨String.toList_inj.mp htext, hrest⟩

end Introspect.Text
