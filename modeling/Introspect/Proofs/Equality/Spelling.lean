import Introspect.Proofs.Equality.Data
import Introspect.Proofs.Number.Numeral
import Introspect.Proofs.Perl.Data
/-!
Plain values that a dump writes alike. They compare as equal, other than a false value with an empty text, and a
text with bytes that are not ASCII.
-/
namespace Introspect.Equality

open World Perl

def isAscii (content : List UInt8) : Bool := content.all (·.toNat < 0x80)

/-- Whether the term of the first value does not tell it from the second. A false value is written as the empty
text is. Bytes are written as the text of their code points, but compare as the text that they encode. -/
def misreads : Atom → Atom → Bool
  | .bool false, .text _ | .bool false, .bytes _ => true
  | .bytes content, .text _ => !isAscii content
  | _, _ => false

/-- Whether plain values of one term are unequal. -/
def clashes (x y : Atom) : Bool := misreads x y || misreads y x

def isReadable (s : String) : Bool := !Numeral.looksNumeric s || (Numeral.read? s).isSome

/-- A text that looks numeric can be read as a number. -/
def Readable (x : Atom) : Prop := ∀ s, x = .text s → isReadable s = true

/-- The value is no number other than an integer. -/
def Integral (x : Atom) : Prop := ∀ n, x = .number n → ∃ i, n = .int i

/-- Next to a value that is not of its own kind, the plain value compares as the text does. -/
structure Spells (w : World) (r : Ref) (x : Atom) (s : String) : Prop where
  looks : x.looksNumeric = Numeral.looksNumeric s
  number : Numeral.looksNumeric s = true → x.toNumber = (Atom.text s).toNumber
  text : Numeral.looksNumeric s = false → comparedText w r x = .ok s

/-- The text in the term of a plain value. -/
def spelling : Term → String
  | .bare cs | .quoted cs => String.ofList cs
  | _ => ""

variable {w : World} {p q : Ref} {x y : Atom} {t : Term} {s : String} {content : List UInt8}

/-! ## ASCII -/

theorem toNat_latin1 (b : UInt8) : (Char.ofNat b.toNat).toNat = b.toNat := by
  have hvalid : b.toNat.isValidChar := .inl (Nat.lt_trans b.toNat_lt (by decide))
  rw [Char.ofNat, dif_pos hvalid]
  rfl

theorem latin1_inj {content content' : List UInt8} (h : Text.latin1 content = Text.latin1 content') :
    content = content' := by
  refine List.map_injective_iff.mpr (fun b b' hb => ?_) h
  rw [← UInt8.toNat_inj, ← toNat_latin1 b, ← toNat_latin1 b']
  exact congrArg Char.toNat hb

theorem isAscii_of_latin1 (h : ∀ c ∈ Text.latin1 content, c.toNat < 0x80) : isAscii content = true := by
  refine List.all_eq_true.mpr fun b hb => decide_eq_true ?_
  rw [← toNat_latin1 b]
  exact h _ (List.mem_map.mpr ⟨b, hb, rfl⟩)

theorem scan_of_isAscii (h : isAscii content = true) :
    Text.Utf8.scan .start content = (Text.latin1 content).map some := by
  induction content with
  | nil => rfl
  | cons b rest ih =>
      rw [isAscii, List.all_cons, Bool.and_eq_true] at h
      obtain ⟨hb, hrest⟩ := h
      have hfirst : Text.Utf8.first b.toNat = (.start, [some (Char.ofNat b.toNat)]) := if_pos (of_decide_eq_true hb)
      change (Text.Utf8.first b.toNat).2 ++ Text.Utf8.scan (Text.Utf8.first b.toNat).1 rest = _
      rw [hfirst, ih hrest]
      rfl

theorem decodeReplacing_of_isAscii (h : isAscii content = true) :
    Text.Utf8.decodeReplacing content = String.ofList (Text.latin1 content) := by
  rw [Text.Utf8.decodeReplacing, scan_of_isAscii h, List.map_map]
  exact congrArg String.ofList (List.map_id _)

/-! ## Plain values and their spellings -/

theorem content_integer {i : Int} (h : contentOf (Atom.int i) = .ok t) :
    t = integerTerm (toString i) ∧ Numeral.read? (toString i) = some (.int i) := by
  obtain ⟨text, htext, rfl⟩ := map_ok_iff.mp h
  refine ⟨by rw [text_of_asText htext]; rfl, ?_⟩
  change Atom.written Number.text (.int i) = .ok text at htext
  unfold Atom.written at htext
  split at htext
  · rename_i hwritable
    obtain ⟨digits, hdigits⟩ := Option.isSome_iff_exists.mp hwritable
    obtain ⟨rfl, hread⟩ := Numeral.read?_of_intText? hdigits
    exact hread
  · cases htext

theorem spelling_integerTerm (s : String) : spelling (integerTerm s) = s := by
  unfold integerTerm
  simp only
  split <;> exact String.ofList_toList

theorem spells_integer {i : Int} (hread : Numeral.read? (toString i) = some (.int i)) :
    Spells w p (Atom.int i) (toString i) where
  looks := (Numeral.looksNumeric_int i).symm
  number _ := by rw [Atom.toNumber, hread]; rfl
  text h := by rw [Numeral.looksNumeric_int] at h; cases h

theorem spells_true : Spells w p (.bool true) "1" where
  looks := by decide
  number _ := by rfl
  text h := absurd h (by decide)

theorem spells_text (h : w.IsOrdinary p (.text s)) : Spells w p (.text s) s where
  looks := rfl
  number _ := rfl
  text _ := Dispatch.plainTextOf_text h

theorem spells_bytes (h : isAscii content = true) :
    Spells w p (.bytes content) (String.ofList (Text.latin1 content)) where
  looks := by rw [Atom.looksNumeric, decodeReplacing_of_isAscii h]
  number _ := by simp only [Atom.toNumber, decodeReplacing_of_isAscii h]
  text _ := by rw [comparedText, decodeReplacing_of_isAscii h]

/-- A plain value other than nothing and falsehood compares as the text in its term, which can be read if it looks
numeric. -/
theorem spells_spelling (hx : w.IsOrdinary p x) (hint : Integral x) (hread : Readable x) (hterm : contentOf x = .ok t)
    (hnone : x ≠ .none) (hfalse : x ≠ .bool false) (hascii : ∀ content, x = .bytes content → isAscii content = true) :
    Spells w p x (spelling t) ∧ ((∀ content, x ≠ .bytes content) → isReadable (spelling t) = true) := by
  cases x with
  | none => exact absurd rfl hnone
  | bool b =>
      cases b with
      | false => exact absurd rfl hfalse
      | true =>
          cases hterm
          exact ⟨spells_true, fun _ => by decide⟩
  | number n =>
      obtain ⟨i, rfl⟩ := hint n rfl
      obtain ⟨rfl, hvalue⟩ := content_integer hterm
      rw [spelling_integerTerm]
      exact ⟨spells_integer hvalue, fun _ => by rw [isReadable, hvalue]; exact Bool.or_true _⟩
  | text s =>
      cases hterm
      rw [spelling, String.ofList_toList]
      exact ⟨spells_text hx, fun _ => hread s rfl⟩
  | bytes content =>
      cases hterm
      exact ⟨spells_bytes (hascii content rfl), fun h => absurd rfl (h content)⟩

/-! ## Comparison -/

theorem compare_of_ne (hx : x ≠ .none) (hy : y ≠ .none)
    (hbytes : ∀ content content', x = .bytes content → y = .bytes content' → False) :
    x.compare y = if x.looksNumeric && y.looksNumeric then (do
      let m ← x.toNumber
      let n ← y.toNumber
      if m.isFloatNan && n.isFloatNan then return .settled true
      return .settled (← Atom.numbersEqual m n)) else .ok .byText := by
  unfold Atom.compare
  split
  · exact absurd rfl hx
  · exact absurd rfl hy
  · exact (hbytes _ _ rfl rfl).elim
  · rfl

/-- A number that is read from a text is not a number, or is the same as itself. -/
theorem numbersEqual_self {n : Number} (h : Numeral.read? s = some n) (hnan : n.isFloatNan = false) :
    Atom.numbersEqual n n = .ok true := by
  have hquantity : n.quantity?.isSome = true ∧ Atom.isSignaling n = false := by
    unfold Numeral.read? at h
    split at h
    · obtain ⟨i, -, rfl⟩ := Option.map_eq_some_iff.mp h
      exact ⟨rfl, rfl⟩
    · obtain ⟨d, -, rfl⟩ := Option.map_eq_some_iff.mp h
      cases d with
      | nan => cases hnan
      | _ => exact ⟨rfl, rfl⟩
  obtain ⟨value, hvalue⟩ := Option.isSome_iff_exists.mp hquantity.1
  rw [Atom.numbersEqual, hquantity.2, Number.same, hvalue]
  simp

theorem formsEqual_of_spells (hx : Spells w p x s) (hy : Spells w q y s) (hread : isReadable s = true)
    (hnone : x ≠ .none) (hnone' : y ≠ .none)
    (hbytes : ∀ content content', x = .bytes content → y = .bytes content' → False) :
    formsEqual x (comparedText w p x) y (comparedText w q y) = .ok true := by
  rw [formsEqual, compare_of_ne hnone hnone' hbytes, hx.looks, hy.looks, Bool.and_self]
  cases hlooks : Numeral.looksNumeric s with
  | false =>
      rw [hx.text hlooks, hy.text hlooks]
      simp [Bind.bind, Except.bind, pure, Except.pure]
  | true =>
      rw [isReadable, hlooks, Bool.not_true, Bool.false_or] at hread
      obtain ⟨n, hn⟩ := Option.isSome_iff_exists.mp hread
      have hnumber : (Atom.text s).toNumber = .ok n := by rw [Atom.toNumber, hn]; rfl
      rw [hx.number hlooks, hy.number hlooks, hnumber]
      cases hnan : n.isFloatNan with
      | true => simp [Bind.bind, Except.bind, pure, Except.pure, hnan]
      | false => simp [Bind.bind, Except.bind, pure, Except.pure, hnan, numbersEqual_self hn hnan]

/-- What stands opposite bytes of one term without a clash is bytes, or makes them ASCII. -/
theorem isAscii_of_opposite (hint : Integral y) (hterm : contentOf (.bytes content) = .ok t)
    (hterm' : contentOf y = .ok t) (hclash : clashes (.bytes content) y = false)
    (hbytes : ∀ content', y ≠ .bytes content') : isAscii content = true := by
  cases hterm
  cases y with
  | none => cases hterm'
  | bool b =>
      cases b with
      | false => cases hclash
      | true => cases hterm'
  | number n =>
      obtain ⟨i, rfl⟩ := hint n rfl
      obtain ⟨hquoted, -⟩ := content_integer hterm'
      have hchars : Text.latin1 content = (toString i).toList := by
        unfold integerTerm at hquoted
        simp only at hquoted
        split at hquoted
        · cases hquoted
        · exact Term.quoted.inj hquoted
      refine isAscii_of_latin1 fun c hc => ?_
      rw [hchars, Numeral.toList_int] at hc
      rcases Numeral.isDigit_or_dash hc with rfl | hd
      · decide
      · exact Nat.lt_of_le_of_lt (Text.toNat_of_isDigit hd).2 (by decide)
  | text s => simpa [clashes, misreads] using hclash
  | bytes content' => exact absurd rfl (hbytes content')

theorem eq_false_of_content (hint : Integral y) (hterm : contentOf y = contentOf (.bool false))
    (hclash : clashes (.bool false) y = false) : y = .bool false := by
  cases y with
  | none => cases hterm
  | bool b =>
      cases b with
      | false => rfl
      | true => cases hterm
  | number n =>
      obtain ⟨i, rfl⟩ := hint n rfl
      obtain ⟨hquoted, -⟩ := content_integer hterm
      have hempty : "" = toString i := (congrArg spelling hquoted).trans (spelling_integerTerm _)
      exact absurd (hempty ▸ Numeral.looksNumeric_int i) (by decide)
  | text s => cases hclash
  | bytes content => cases hclash

theorem eq_none_of_content (hint : Integral y) (hterm : contentOf y = .ok .undefined) : y = .none := by
  cases y with
  | none => rfl
  | bool b => cases b <;> cases hterm
  | number n =>
      obtain ⟨i, rfl⟩ := hint n rfl
      obtain ⟨hundefined, -⟩ := content_integer hterm
      unfold integerTerm at hundefined
      simp only at hundefined
      split at hundefined <;> cases hundefined
  | text s => cases hterm
  | bytes content => cases hterm

/-- Plain values of one term that do not clash compare as equal. -/
theorem formsEqual_of_contentOf (hx : w.IsOrdinary p x) (hy : w.IsOrdinary q y) (hint : Integral x) (hint' : Integral y)
    (hterm : contentOf x = .ok t) (hterm' : contentOf y = .ok t) (hclash : clashes x y = false) (hread : Readable x)
    (hread' : Readable y) : formsEqual x (comparedText w p x) y (comparedText w q y) = .ok true := by
  by_cases hnone : x = .none
  · subst hnone
    cases hterm
    rw [eq_none_of_content hint' hterm']
    rfl
  by_cases hnone' : y = .none
  · subst hnone'
    cases hterm'
    exact absurd (eq_none_of_content hint hterm) hnone
  have hclash' : clashes y x = false := (Bool.or_comm _ _).trans hclash
  by_cases hfalse : x = .bool false
  · subst hfalse
    rw [eq_false_of_content hint' (hterm'.trans hterm.symm) hclash]
    rfl
  by_cases hfalse' : y = .bool false
  · subst hfalse'
    exact absurd (eq_false_of_content hint (hterm.trans hterm'.symm) hclash') hfalse
  by_cases hbytes : (∃ content, x = .bytes content) ∧ ∃ content, y = .bytes content
  · obtain ⟨⟨content, rfl⟩, content', rfl⟩ := hbytes
    cases hterm
    rw [latin1_inj (Term.quoted.inj (Except.ok.inj hterm'))]
    simp [formsEqual, Atom.compare, Bind.bind, Except.bind, pure, Except.pure]
  obtain ⟨hspells, hreadable⟩ := spells_spelling hx hint hread hterm hnone hfalse fun content h => by
    subst h
    exact isAscii_of_opposite hint' hterm hterm' hclash fun content' h => hbytes ⟨⟨_, rfl⟩, _, h⟩
  obtain ⟨hspells', hreadable'⟩ := spells_spelling hy hint' hread' hterm' hnone' hfalse' fun content h => by
    subst h
    exact isAscii_of_opposite hint hterm' hterm hclash' fun content' h => hbytes ⟨⟨_, h⟩, _, rfl⟩
  have hreading : isReadable (spelling t) = true := by
    by_cases hb : ∃ content, x = .bytes content
    · exact hreadable' fun content h => hbytes ⟨hb, _, h⟩
    · exact hreadable fun content h => hb ⟨_, h⟩
  exact formsEqual_of_spells hspells hspells' hreading hnone hnone' fun content content' h h' =>
    hbytes ⟨⟨_, h⟩, _, h'⟩

end Introspect.Equality
