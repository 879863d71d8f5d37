import Introspect.Proofs.Equality.Spelling
import Introspect.Proofs.Number.Layout
/-!
What plain values count as where they are compared. Nothing, integers, floating-point numbers and texts are equal
exactly if they count as the same: as a quantity if they look numeric, else as a wording.
-/
namespace Introspect.Equality

open World Perl

/-- What a plain value counts as. A number that is none is a quantity without a value. -/
inductive Sense where
  | nothing
  | quantity (value : Option (Extended × Extended))
  | wording (s : String)
deriving DecidableEq

def senseOf (x : Atom) : Sense :=
  if x.looksNumeric then .quantity (x.toNumber.toOption.bind Number.quantity?)
  else
    match x with
    | .text s => .wording s
    | _ => .nothing

/-- Nothing, an integer, a floating-point number or a text. -/
inductive Basic : Atom → Prop
  | none : Basic .none
  | int (i : Int) : Basic (Atom.int i)
  | float (x : Double) : Basic (.number (.float x))
  | text (s : String) : Basic (.text s)

/-- Nothing, a truth value, an integer, a floating-point number, a text or bytes. -/
inductive Common : Atom → Prop
  | none : Common .none
  | bool (b : Bool) : Common (.bool b)
  | int (i : Int) : Common (Atom.int i)
  | float (x : Double) : Common (.number (.float x))
  | text (s : String) : Common (.text s)
  | bytes (content : List UInt8) : Common (.bytes content)

/-- An integer or a floating-point number. -/
def IsReal (n : Number) : Prop := (∃ i, n = .int i) ∨ ∃ x, n = .float x

variable {w : World} {p q : Ref} {x y : Atom} {m n : Number} {s t : String} {e : Bool}

/-! ## Quantities -/

theorem isReal_of_read? (h : Numeral.read? s = some n) : IsReal n := by
  unfold Numeral.read? at h
  split at h
  · obtain ⟨i, -, rfl⟩ := Option.map_eq_some_iff.mp h
    exact .inl ⟨i, rfl⟩
  · obtain ⟨x, -, rfl⟩ := Option.map_eq_some_iff.mp h
    exact .inr ⟨x, rfl⟩

theorem Basic.common (h : Basic x) : Common x := by
  cases h with
  | none => exact .none
  | int i => exact .int i
  | float x => exact .float x
  | text s => exact .text s

theorem isReal_of_numeral (h : (Atom.text s).toNumber = .ok n) : IsReal n := by
  cases hread : Numeral.read? s with
  | none => simp [Atom.toNumber, hread] at h
  | some m =>
      simp only [Atom.toNumber, hread, Option.elim_some, Except.ok.injEq] at h
      exact h ▸ isReal_of_read? hread

theorem isReal_of_toNumber (hx : Common x) (h : x.toNumber = .ok n) : IsReal n := by
  cases hx with
  | none => cases h
  | bool b => cases h; exact .inl ⟨_, rfl⟩
  | int i => cases h; exact .inl ⟨i, rfl⟩
  | float x => cases h; exact .inr ⟨x, rfl⟩
  | text s => exact isReal_of_numeral h
  | bytes content => exact isReal_of_numeral h

theorem IsReal.isSignaling (h : IsReal n) : Atom.isSignaling n = false := by
  obtain ⟨i, rfl⟩ | ⟨x, rfl⟩ := h <;> rfl

theorem IsReal.isFloatNan_iff (h : IsReal n) : n.isFloatNan = true ↔ n.quantity? = none := by
  obtain ⟨i, rfl⟩ | ⟨x, rfl⟩ := h
  · exact iff_of_false Bool.false_ne_true (Option.some_ne_none _)
  · cases x <;> simp [Number.isFloatNan, Double.isNan, Number.quantity?, Double.extended?]

/-- Numbers that are none count as one value, and others are equal exactly if their values are. -/
theorem comparison_of_numbers (hm : IsReal m) (hn : IsReal n) :
    (if m.isFloatNan && n.isFloatNan then .ok true else Atom.numbersEqual m n) =
      .ok (decide (m.quantity? = n.quantity?)) := by
  rw [Atom.numbersEqual, hm.isSignaling, hn.isSignaling, Number.same]
  cases hmq : m.quantity? with
  | none =>
      rw [hm.isFloatNan_iff.mpr hmq]
      cases hnq : n.quantity? with
      | none => simp [hn.isFloatNan_iff.mpr hnq]
      | some v => simp [mt hn.isFloatNan_iff.mp (by simp [hnq])]
  | some u =>
      have hnan : m.isFloatNan = false := Bool.not_eq_true _ ▸ mt hm.isFloatNan_iff.mp (by simp [hmq])
      cases n.quantity? <;> simp [hnan, beq_eq_decide]

/-! ## Texts -/

/-- The text of a number looks numeric, and so a text that does not is no text of a number. -/
theorem looksNumeric_comparedText (hx : w.IsOrdinary p x) (hb : Basic x) (hnone : x ≠ .none)
    (h : comparedText w p x = .ok s) : Numeral.looksNumeric s = x.looksNumeric := by
  cases hb with
  | none => exact absurd rfl hnone
  | int i =>
      have htext := (plainTextOf_number hx).symm.trans h
      rw [text_of_asText htext]
      exact Numeral.looksNumeric_int i
  | float x =>
      have htext := (plainTextOf_number hx).symm.trans h
      rw [text_of_asText htext]
      exact Numeral.looksNumeric_text x
  | text u =>
      cases (Dispatch.plainTextOf_text hx).symm.trans h
      rfl

/-- What does not look numeric is nothing or a text. -/
theorem exists_text (hb : Basic x) (hnone : x ≠ .none) (hlooks : x.looksNumeric = false) : ∃ s, x = .text s := by
  cases hb with
  | none => exact absurd rfl hnone
  | int i => cases hlooks
  | float x => cases hlooks
  | text s => exact ⟨s, rfl⟩

theorem senseOf_text (hlooks : (Atom.text s).looksNumeric = false) : senseOf (.text s) = .wording s := by
  simp [senseOf, hlooks]

theorem senseOf_numeric (hlooks : x.looksNumeric = true) (hn : x.toNumber = .ok n) :
    senseOf x = .quantity n.quantity? := by
  simp [senseOf, hlooks, hn, Except.toOption]

theorem senseOf_eq_nothing (hb : Basic x) : senseOf x = .nothing ↔ x = .none := by
  refine ⟨fun h => ?_, fun h => h ▸ rfl⟩
  by_contra hnone
  cases hlooks : x.looksNumeric with
  | true => simp [senseOf, hlooks] at h
  | false =>
      obtain ⟨s, rfl⟩ := exists_text hb hnone hlooks
      rw [senseOf_text hlooks] at h
      cases h

theorem looksNumeric_of_senseOf (hx : Basic x) (hnone : x ≠ .none) (hlooks : x.looksNumeric = false)
    (h : senseOf x = senseOf y) : y.looksNumeric = false := by
  obtain ⟨s, rfl⟩ := exists_text hx hnone hlooks
  rw [senseOf_text hlooks] at h
  by_contra hly
  simp [senseOf, Bool.not_eq_false _ ▸ hly] at h

/-! ## Comparison -/

theorem compare_numeric (hbytes : ∀ content content', x = .bytes content → y = .bytes content' → False)
    (hlx : x.looksNumeric = true) (hly : y.looksNumeric = true) (hm : x.toNumber = .ok m) (hn : y.toNumber = .ok n)
    (hrm : IsReal m) (hrn : IsReal n) :
    x.compare y = .ok (.settled (decide (m.quantity? = n.quantity?))) := by
  have hvalue := comparison_of_numbers hrm hrn
  rw [compare_of_ne (by rintro rfl; cases hlx) (by rintro rfl; cases hly) hbytes, hlx, hly, hm, hn]
  by_cases hnan : (m.isFloatNan && n.isFloatNan) = true
  · rw [if_pos hnan] at hvalue
    simp [Bind.bind, Except.bind, pure, Except.pure, hnan, ← Except.ok.inj hvalue]
  · rw [if_neg hnan] at hvalue
    simp [Bind.bind, Except.bind, pure, Except.pure, hnan, hvalue]

theorem formsEqual_numeric {f g : Except Fault String} (hx : Basic x) (hy : Basic y) (hlx : x.looksNumeric = true)
    (hly : y.looksNumeric = true) (h : formsEqual x f y g = .ok e) : e = true ↔ senseOf x = senseOf y := by
  obtain ⟨comparison, hcompare, -⟩ := bind_ok_iff.mp h
  rw [compare_of_ne (by rintro rfl; cases hlx) (by rintro rfl; cases hly) (by rintro _ _ rfl rfl; cases hx), hlx, hly]
    at hcompare
  obtain ⟨m, hm, hcompare⟩ := bind_ok_iff.mp hcompare
  obtain ⟨n, hn, -⟩ := bind_ok_iff.mp hcompare
  rw [formsEqual,
    compare_numeric (by rintro _ _ rfl rfl; cases hx) hlx hly hm hn (isReal_of_toNumber hx.common hm)
      (isReal_of_toNumber hy.common hn)] at h
  cases h
  rw [decide_eq_true_iff, senseOf_numeric hlx hm, senseOf_numeric hly hn, Sense.quantity.injEq]

/-- One of two values does not look numeric, so that their texts decide. -/
theorem formsEqual_wording (hp : w.IsOrdinary p x) (hq : w.IsOrdinary q y) (hx : Basic x) (hy : Basic y)
    (hnx : x ≠ .none) (hny : y ≠ .none) (hlooks : (x.looksNumeric && y.looksNumeric) = false)
    (h : formsEqual x (comparedText w p x) y (comparedText w q y) = .ok e) : e = true ↔ senseOf x = senseOf y := by
  have hcompare : x.compare y = .ok .byText := by
    rw [compare_of_ne hnx hny (by rintro _ _ rfl rfl; cases hx), hlooks]
    rfl
  obtain ⟨comparison, hcomparison, h⟩ := bind_ok_iff.mp h
  cases hcomparison.symm.trans hcompare
  obtain ⟨s, hs, h⟩ := bind_ok_iff.mp h
  obtain ⟨t, ht, h⟩ := bind_ok_iff.mp h
  cases h
  have hlx := looksNumeric_comparedText hp hx hnx hs
  have hly := looksNumeric_comparedText hq hy hny ht
  rw [decide_eq_true_iff]
  by_cases hsame : x.looksNumeric = y.looksNumeric
  · rw [hsame, Bool.and_self] at hlooks
    obtain ⟨s', rfl⟩ := exists_text hx hnx (hsame.trans hlooks)
    obtain ⟨t', rfl⟩ := exists_text hy hny hlooks
    cases (Dispatch.plainTextOf_text hp).symm.trans hs
    cases (Dispatch.plainTextOf_text hq).symm.trans ht
    rw [senseOf_text (hsame.trans hlooks), senseOf_text hlooks, Sense.wording.injEq]
  · refine iff_of_false (fun hst => hsame (by rw [← hlx, ← hly, hst])) fun hsense => hsame ?_
    rcases Bool.and_eq_false_iff.mp hlooks with hfalse | hfalse
    · rw [hfalse, looksNumeric_of_senseOf hx hnx hfalse hsense]
    · rw [hfalse, looksNumeric_of_senseOf hy hny hfalse hsense.symm]

/-- Two values whose comparison answers are equal exactly if they count as the same. -/
theorem formsEqual_iff (hp : w.IsOrdinary p x) (hq : w.IsOrdinary q y) (hx : Basic x) (hy : Basic y)
    (h : formsEqual x (comparedText w p x) y (comparedText w q y) = .ok e) : e = true ↔ senseOf x = senseOf y := by
  by_cases hnx : x = .none
  · subst hnx
    cases h
    rw [decide_eq_true_iff]
    exact ⟨fun hny => hny ▸ rfl, fun hsense => (senseOf_eq_nothing hy).mp hsense.symm⟩
  by_cases hny : y = .none
  · subst hny
    have hcompare : x.compare .none = .ok (.settled false) := by cases hx <;> first | exact absurd rfl hnx | rfl
    rw [formsEqual, hcompare] at h
    cases h
    exact iff_of_false Bool.false_ne_true fun hsense => hnx ((senseOf_eq_nothing hx).mp hsense)
  cases hlooks : x.looksNumeric && y.looksNumeric with
  | true =>
      obtain ⟨hlx, hly⟩ := Bool.and_eq_true_iff.mp hlooks
      exact formsEqual_numeric hx hy hlx hly h
  | false => exact formsEqual_wording hp hq hx hy hnx hny hlooks h

end Introspect.Equality
