import Introspect.Proofs.Equality.Aspects
import Introspect.Proofs.Number.Reading
/-!
Comparison of nothing, truth values, integers, floating-point numbers, texts and bytes of the host's own classes. Their
contents alone decide what it answers, and whether it answers.
-/
namespace Introspect

namespace Atom

/-- The text of the value looks numeric, but has no number. -/
def isDeceptive : Atom → Bool
  | .text s => Numeral.isDeceptive s
  | .bytes b => Numeral.isDeceptive (Text.Utf8.decodeReplacing b)
  | _ => false

def isBytes : Atom → Bool
  | .bytes _ => true
  | _ => false

/-- The value is a number that has too many digits for a text. -/
def isUnwritable : Atom → Bool
  | .number n => !isWritable n
  | _ => false

/-- Two values that look numeric need a number each, and others a text each. -/
def areIncomparable (x y : Atom) : Bool :=
  decide (x ≠ .none) && decide (y ≠ .none) && !(x.isBytes && y.isBytes) &&
    if x.looksNumeric && y.looksNumeric then x.isDeceptive || y.isDeceptive else x.isUnwritable || y.isUnwritable

variable {x : Atom}

theorem toNumber_cases (hlooks : x.looksNumeric = true) :
    (x.isDeceptive = false ∧ ∃ n, x.toNumber = .ok n) ∨ (x.isDeceptive = true ∧ x.toNumber = .error .valueError) := by
  have htext (s : String) (hs : Numeral.looksNumeric s = true) :
      (Numeral.isDeceptive s = false ∧ ∃ n, (Atom.text s).toNumber = .ok n) ∨
        (Numeral.isDeceptive s = true ∧ (Atom.text s).toNumber = .error .valueError) := by
    have hread := Numeral.isSome_read?_iff hs
    cases hn : Numeral.read? s with
    | none => exact .inr ⟨by simpa [hn] using hread, by simp [toNumber, hn]⟩
    | some n => exact .inl ⟨by simpa [hn] using hread, n, by simp [toNumber, hn]⟩
  cases x with
  | none => cases hlooks
  | bool b => exact .inl ⟨rfl, _, rfl⟩
  | number n => exact .inl ⟨rfl, n, rfl⟩
  | text s => exact htext s hlooks
  | bytes content => exact htext _ hlooks

theorem plainText_cases (x : Atom) :
    (x.isUnwritable = false ∧ ∃ s, x.plainText = .ok s) ∨
      (x.isUnwritable = true ∧ x.plainText = .error .valueError) := by
  cases x with
  | number n => cases hn : isWritable n <;> simp [isUnwritable, plainText, written, hn]
  | none => exact .inl ⟨rfl, _, rfl⟩
  | bool b => exact .inl ⟨rfl, _, rfl⟩
  | text s => exact .inl ⟨rfl, s, rfl⟩
  | bytes content => exact .inl ⟨rfl, _, rfl⟩

end Atom

namespace Equality

open World

variable {w : World} {p q : Ref} {x y : Atom} {m n : Number} {s t : String}

/-! ## Contents decide -/

theorem plainTextOf_eq_display (hnumber : ∀ n, x ≠ .number n) (htext : ∀ s, x ≠ .text s) (w : World) (p : Ref) :
    Dispatch.plainTextOf w p x = x.display := by
  rw [Dispatch.plainTextOf, Dispatch.atomDisplay_of_ne (fun _ => hnumber _)]
  cases x with
  | number n => exact absurd rfl (hnumber n)
  | text s => exact absurd rfl (htext s)
  | none | bool _ | bytes _ =>
      unfold Dispatch.nativeTextOf
      split <;> first | rfl | contradiction

theorem comparedText_eq (h : w.IsOrdinary p x) : comparedText w p x = x.plainText := by
  cases x with
  | none => exact plainTextOf_eq_display (by simp) (by simp) w p
  | bool b => exact plainTextOf_eq_display (by simp) (by simp) w p
  | number n => exact Perl.plainTextOf_number h
  | text s => exact Dispatch.plainTextOf_text h
  | bytes content => rfl

theorem formsEqual_eq_same (hp : w.IsOrdinary p x) (hq : w.IsOrdinary q y) :
    formsEqual x (comparedText w p x) y (comparedText w q y) = x.same y := by
  rw [formsEqual, comparedText_eq hp, comparedText_eq hq, Atom.same]
  cases x.compare y with
  | error fault => rfl
  | ok comparison =>
      cases comparison with
      | settled equal => rfl
      | byText => cases x.plainText <;> cases y.plainText <;> rfl

theorem settles_same (hp : w.IsOrdinary p x) (hq : w.IsOrdinary q y) :
    w.Settles (Conversion.plainEqual p q) (x.same y) :=
  formsEqual_eq_same hp hq ▸ settles_plainEqual hp hq

theorem settles_same_iff (hp : w.IsOrdinary p x) (hq : w.IsOrdinary q y) {res : Except Fault Bool} :
    w.Settles (Conversion.plainEqual p q) res ↔ x.same y = res :=
  ⟨fun h => (settles_same hp hq).unique h, fun h => h ▸ settles_same hp hq⟩

/-! ## The ways to compare -/

theorem same_none_left (y : Atom) : Atom.none.same y = .ok (decide (y = .none)) := rfl

theorem same_none_right (h : x ≠ .none) : x.same .none = .ok false := by
  cases x <;> first | exact absurd rfl h | rfl

theorem same_bytes (content content' : List UInt8) :
    (Atom.bytes content).same (.bytes content') = .ok (decide (content = content')) := rfl

theorem not_both_bytes (h : (x.isBytes && y.isBytes) = false) (content content' : List UInt8) (hx : x = .bytes content)
    (hy : y = .bytes content') : False := by
  subst hx hy
  cases h

theorem exists_both_bytes (h : (x.isBytes && y.isBytes) = true) :
    ∃ content content', x = .bytes content ∧ y = .bytes content' := by
  cases x <;> cases y <;> first | exact ⟨_, _, rfl, rfl⟩ | cases h

section Numeric

variable (hb : (x.isBytes && y.isBytes) = false) (hlx : x.looksNumeric = true) (hly : y.looksNumeric = true)

include hb hlx hly

theorem same_numeric_cases (hx : Common x) (hy : Common y) :
    ((x.isDeceptive || y.isDeceptive) = false ∧ ∃ m n, x.toNumber = .ok m ∧ y.toNumber = .ok n ∧
        x.same y = .ok (decide (m.quantity? = n.quantity?))) ∨
      ((x.isDeceptive || y.isDeceptive) = true ∧ x.same y = .error .valueError) := by
  have hcompare := compare_of_ne (by rintro rfl; cases hlx) (by rintro rfl; cases hly) (not_both_bytes hb)
  rcases Atom.toNumber_cases hlx with ⟨hdx, m, hm⟩ | ⟨hdx, hfault⟩
  · rcases Atom.toNumber_cases hly with ⟨hdy, n, hn⟩ | ⟨hdy, hfault⟩
    · refine .inl ⟨by simp [hdx, hdy], m, n, hm, hn, ?_⟩
      rw [Atom.same, compare_numeric (not_both_bytes hb) hlx hly hm hn (isReal_of_toNumber hx hm)
        (isReal_of_toNumber hy hn)]
      rfl
    · refine .inr ⟨by simp [hdy], ?_⟩
      rw [Atom.same, hcompare, hlx, hly, hm, hfault]
      rfl
  · refine .inr ⟨by simp [hdx], ?_⟩
    rw [Atom.same, hcompare, hlx, hly, hfault]
    rfl

end Numeric

section Wording

variable (hnx : x ≠ .none) (hny : y ≠ .none) (hb : (x.isBytes && y.isBytes) = false)
  (hlooks : (x.looksNumeric && y.looksNumeric) = false)

include hnx hny hb hlooks

theorem same_wording_cases :
    ((x.isUnwritable || y.isUnwritable) = false ∧ ∃ s t, x.plainText = .ok s ∧ y.plainText = .ok t ∧
        x.same y = .ok (decide (s = t))) ∨
      ((x.isUnwritable || y.isUnwritable) = true ∧ x.same y = .error .valueError) := by
  have hcompare : x.compare y = .ok .byText := by
    rw [compare_of_ne hnx hny (not_both_bytes hb), hlooks]
    rfl
  rcases Atom.plainText_cases x with ⟨hux, s, hs⟩ | ⟨hux, hfault⟩
  · rcases Atom.plainText_cases y with ⟨huy, t, ht⟩ | ⟨huy, hfault⟩
    · refine .inl ⟨by simp [hux, huy], s, t, hs, ht, ?_⟩
      rw [Atom.same, hcompare, hs, ht, ← beq_eq_decide]
      rfl
    · refine .inr ⟨by simp [huy], ?_⟩
      rw [Atom.same, hcompare, hs, hfault]
      rfl
  · refine .inr ⟨by simp [hux], ?_⟩
    rw [Atom.same, hcompare, hfault]
    rfl

end Wording

/-! ## Answers -/

/-- A comparison answers, or it is one of incomparable values. -/
theorem same_cases (hx : Common x) (hy : Common y) :
    (x.areIncomparable y = false ∧ ∃ e, x.same y = .ok e) ∨
      (x.areIncomparable y = true ∧ x.same y = .error .valueError) := by
  by_cases hnx : x = .none
  · subst hnx
    exact .inl ⟨rfl, _, same_none_left y⟩
  by_cases hny : y = .none
  · subst hny
    exact .inl ⟨by simp [Atom.areIncomparable], _, same_none_right hnx⟩
  cases hb : x.isBytes && y.isBytes with
  | true =>
      obtain ⟨content, content', rfl, rfl⟩ := exists_both_bytes hb
      exact .inl ⟨by simp [Atom.areIncomparable, hb], _, same_bytes content content'⟩
  | false =>
      have hfails : x.areIncomparable y = if x.looksNumeric && y.looksNumeric then x.isDeceptive || y.isDeceptive
          else x.isUnwritable || y.isUnwritable := by
        simp [Atom.areIncomparable, hnx, hny, hb]
      rw [hfails]
      cases hlooks : x.looksNumeric && y.looksNumeric with
      | true =>
          obtain ⟨hlx, hly⟩ := Bool.and_eq_true_iff.mp hlooks
          rcases same_numeric_cases hb hlx hly hx hy with ⟨hd, m, n, -, -, hsame⟩ | hfault
          · exact .inl ⟨hd, _, hsame⟩
          · exact .inr hfault
      | false =>
          rcases same_wording_cases hnx hny hb hlooks with ⟨hu, s, t, -, -, hsame⟩ | hfault
          · exact .inl ⟨hu, _, hsame⟩
          · exact .inr hfault

/-- A value that looks numeric has a number if its text is not deceptive, and two values compare exactly if they are not
incomparable: no deceptive text stands opposite something that looks numeric, and no integer without a text opposite
something that does not. -/
theorem plainEqual_answers_iff (hp : w.IsOrdinary p x) (hq : w.IsOrdinary q y) (hx : Common x) (hy : Common y) :
    (x.looksNumeric = true → ((∃ n, x.toNumber = .ok n) ↔ x.isDeceptive = false)) ∧
      ((∃ e, w.Settles (Conversion.plainEqual p q) (.ok e)) ↔ x.areIncomparable y = false) ∧
      (x.areIncomparable y = true → w.Settles (Conversion.plainEqual p q) (.error .valueError)) := by
  simp only [settles_same_iff hp hq]
  refine ⟨fun hlooks => ?_, ?_⟩
  · rcases Atom.toNumber_cases hlooks with ⟨hd, hn⟩ | ⟨hd, hfault⟩
    · exact iff_of_true hn hd
    · simp [hd, hfault]
  · rcases same_cases hx hy with ⟨hc, he⟩ | ⟨hc, hfault⟩
    · exact ⟨iff_of_true he hc, fun hc' => absurd (hc.symm.trans hc') Bool.false_ne_true⟩
    · exact ⟨by simp [hc, hfault], fun _ => hfault⟩

/-- Digits of any script are read, but a dotless letter only looks like one of an infinity. -/
theorem plainEqual_answers_digits :
    (∃ e, Session.initialWorld.Settles (Conversion.plainEqual (textRef "\u0661\u0662") (intRef 12)) (.ok e)) ∧
      Session.initialWorld.Settles (Conversion.plainEqual (textRef "\u0131nf") (intRef 12)) (.error .valueError) := by
  obtain ⟨-, hanswers, -⟩ := plainEqual_answers_iff (w := Session.initialWorld) (p := textRef "\u0661\u0662")
    (q := intRef 12) (.atom _ _) (.atom _ _) (.text _) (.int 12)
  obtain ⟨-, -, hfails⟩ := plainEqual_answers_iff (w := Session.initialWorld) (p := textRef "\u0131nf")
    (q := intRef 12) (.atom _ _) (.atom _ _) (.text _) (.int 12)
  exact ⟨hanswers.mpr (by decide), hfails (by decide)⟩

theorem not_plainEqual_answers_dotless :
    (Atom.text "\u0131nf").looksNumeric = true ∧ failed (Conversion.plainEqual (textRef "\u0131nf") (intRef 1))
      Session.initialWorld = some .valueError := by
  decide +kernel

end Equality

end Introspect
