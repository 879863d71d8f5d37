import Introspect.Proofs.Number.Numeral
import Introspect.Proofs.Perl.Readback
import Introspect.Perl.Encode
/-!
Texts of numbers. They are not empty and hold digits, signs and a few letters, so no separators and no quotes,
and brackets only around a complex number.
-/
namespace Introspect.Perl

theorem isNumeralChar_of_isDigit {c : Char} (h : c.isDigit = true) : isNumeralChar c = true := by
  rw [isNumeralChar, h]
  rfl

theorem isNumeralChar_int (i : Int) : ∀ c ∈ (toString i).toList, isNumeralChar c = true := fun c hc => by
  rcases Numeral.isDigit_or_dash (Numeral.toList_int i ▸ hc) with rfl | hd
  · decide
  · exact isNumeralChar_of_isDigit hd

/-! ## Characters of numbers -/

/-- The characters of a number that is not complex. -/
def isNumberChar (c : Char) : Bool := isNumeralChar c || "+./aefijnstyEIN".toList.contains c

/-- A kind of characters that numbers are made of. -/
def IsNumeric (p : Char → Bool) : Prop := ∀ c, isNumberChar c = true → p c = true

def Consists (p : Char → Bool) (s : String) : Prop := ∀ c ∈ s.toList, p c = true

namespace Consists

variable {p q : Char → Bool} {s s' : String}

theorem mono (h : Consists p s) (hpq : ∀ c, p c = true → q c = true) : Consists q s := fun c hc => hpq c (h c hc)

theorem of_all (h : s.toList.all p = true) : Consists p s := List.all_eq_true.mp h

theorem append (h : Consists p s) (h' : Consists p s') : Consists p (s ++ s') := fun c hc => by
  rw [String.toList_append, List.mem_append] at hc
  exact hc.elim (h c) (h' c)

theorem ofList {cs : List Char} (h : ∀ c ∈ cs, p c = true) : Consists p (String.ofList cs) := fun c hc =>
  h c (by simpa using hc)

theorem ite {P : Prop} [Decidable P] (h : Consists p s) (h' : Consists p s') : Consists p (if P then s else s') := by
  split
  · exact h
  · exact h'

end Consists

/-- The characters in front of the point and from it on, as finite decimals have them. -/
def pointed (digits : List Char) (point : Int) : List Char × List Char :=
  if point ≤ 0 then (['0'], '.' :: (List.replicate (-point).toNat '0' ++ digits))
  else if point ≥ digits.length then (digits ++ List.replicate (point - digits.length).toNat '0', [])
  else (digits.take point.toNat, '.' :: digits.drop point.toNat)

section Numeric

variable {p : Char → Bool} (hp : IsNumeric p)

include hp

theorem IsNumeric.word {s : String} (h : s.toList.all isNumberChar = true) : Consists p s :=
  (Consists.of_all h).mono hp

theorem consists_int (i : Int) : Consists p (toString i) := fun c hc => hp c (by
  rw [isNumberChar, isNumeralChar_int i c hc, Bool.true_or])

theorem consists_nat (n : Nat) : Consists p (toString n) := consists_int hp n

theorem consists_zeros (n : Nat) : Consists p (String.ofList (List.replicate n '0')) := .ofList fun c hc => by
  rw [List.eq_of_mem_replicate hc]
  exact hp '0' (by decide)

theorem consists_sign (negative : Bool) : Consists p (Double.sign negative) := by
  cases negative <;> exact hp.word (by decide)

theorem consists_exponentText (e : Int) : Consists p (Double.exponentText e) :=
  (Consists.ite (hp.word (by decide)) (hp.word (by decide))).append
    (.ite ((hp.word (by decide)).append (consists_nat hp _)) (consists_nat hp _))

theorem consists_layout {point : String} (hpoint : Consists p point) (d : Scientific) :
    Consists p (Double.layout point d) := by
  have hdigits := consists_nat hp d.digits
  have htake (n : Nat) : Consists p (String.ofList ((toString d.digits).toList.take n)) :=
    .ofList fun c hc => hdigits c (List.mem_of_mem_take hc)
  have hdrop (n : Nat) : Consists p (String.ofList ((toString d.digits).toList.drop n)) :=
    .ofList fun c hc => hdigits c (List.mem_of_mem_drop hc)
  have hzeroPoint : Consists p "0." := hp.word (by decide)
  have hdot : Consists p "." := hp.word (by decide)
  have hpower : Consists p "e" := hp.word (by decide)
  unfold Double.layout
  refine .ite (.ite ((hzeroPoint.append (consists_zeros hp _)).append hdigits) (.ite ?_ ?_)) ?_
  · exact (hdigits.append (consists_zeros hp _)).append hpoint
  · exact ((htake _).append hdot).append (hdrop _)
  · exact (((htake 1).append (.ite (hp.word (by decide)) (hdot.append (hdrop 1)))).append hpower).append
      (consists_exponentText hp _)

theorem consists_textWith {point : String} (hpoint : Consists p point) (x : Double) :
    Consists p (x.textWith point) := by
  cases x with
  | nan =>
      rw [Double.textWith]
      exact hp.word (by decide)
  | infinite negative => exact (consists_sign hp negative).append (hp.word (by decide))
  | finite negative m q => exact (consists_sign hp negative).append (consists_layout hp hpoint _)

theorem consists_pointed {digits : List Char} (h : ∀ c ∈ digits, p c = true) (point : Int) :
    ∀ c ∈ (pointed digits point).1 ++ (pointed digits point).2, p c = true := by
  intro c hc
  have hzero : p '0' = true := hp '0' (by decide)
  have hdot : p '.' = true := hp '.' (by decide)
  have hzeros : ∀ n, c ∈ List.replicate n '0' → p c = true := fun n hc => by
    rw [List.eq_of_mem_replicate hc]
    exact hzero
  unfold pointed at hc
  split at hc
  · simp only [List.cons_append, List.nil_append, List.mem_cons, List.mem_append] at hc
    rcases hc with rfl | rfl | hc | hc
    · exact hzero
    · exact hdot
    · exact hzeros _ hc
    · exact h c hc
  · split at hc
    · simp only [List.append_nil, List.mem_append] at hc
      exact hc.elim (h c) (hzeros _)
    · simp only [List.mem_append, List.mem_cons] at hc
      rcases hc with hc | rfl | hc
      · exact h c (List.mem_of_mem_take hc)
      · exact hdot
      · exact h c (List.mem_of_mem_drop hc)

theorem consists_decimal (d : Decimal) (h : ∀ n s payload, d = .nan n s payload → Consists p payload) :
    Consists p d.text := by
  have hsign (negative : Bool) : Consists p (Decimal.sign negative) := by
    cases negative <;> exact hp.word (by decide)
  have hpower : Consists p "E" := hp.word (by decide)
  have hword (yes : Bool) : Consists p (if yes then "sNaN" else "NaN") :=
    .ite (hp.word (by decide)) (hp.word (by decide))
  cases d with
  | nan negative signaling payload =>
      exact ((hsign negative).append (hword signaling)).append (h _ _ _ rfl)
  | infinite negative =>
      have hinfinity : Consists p "Infinity" := hp.word (by decide)
      exact (hsign negative).append hinfinity
  | finite negative coefficient exponent =>
      have hempty : Consists p "" := hp.word (by decide)
      unfold Decimal.text
      refine ((hsign negative).append (.ofList (consists_pointed hp (consists_nat hp coefficient) _))).append ?_
      exact .ite hempty ((hpower.append (.ite (hp.word (by decide)) (hp.word (by decide)))).append (consists_nat hp _))

theorem consists_complex (re im : Double) : Consists p (Number.complexText re im) ∨
    ∃ inner, Consists p inner ∧ Number.complexText re im = "(" ++ inner ++ ")" := by
  have hempty : Consists p "" := hp.word (by decide)
  have hunit : Consists p "j" := hp.word (by decide)
  have hplus : Consists p "+" := hp.word (by decide)
  have him : Consists p (Double.textWith "" im ++ "j") := (consists_textWith hp hempty im).append hunit
  have hjoined : Consists p (if (Double.textWith "" im ++ "j").startsWith "-" then "" else "+") := .ite hempty hplus
  unfold Number.complexText
  split
  · exact .inl him
  · refine .inr ⟨_, ((consists_textWith hp hempty re).append hjoined).append him, ?_⟩
    simp only [String.append_assoc]

/-- A number is written in characters of numbers, perhaps in brackets, unless it is one of a declared class. -/
theorem consists_number (n : Number) (h : ∀ negative signaling payload,
    n = .decimal (.nan negative signaling payload) → Consists p payload) (hd : ∀ address, n ≠ .declared address) :
    Consists p n.text ∨ ∃ inner, Consists p inner ∧ n.text = "(" ++ inner ++ ")" := by
  cases n with
  | declared address => exact absurd rfl (hd address)
  | int i => exact .inl (consists_int hp i)
  | float x => exact .inl (consists_textWith hp (hp.word (by decide)) x)
  | decimal d => exact .inl (consists_decimal hp d fun n s payload hd => h n s payload (congrArg Number.decimal hd))
  | fraction num den =>
      have hslash : Consists p "/" := hp.word (by decide)
      exact .inl (.ite (consists_int hp num) (((consists_int hp num).append hslash).append (consists_nat hp den)))
  | complex re im => exact consists_complex hp re im

end Numeric

/-! ## Closed texts of numbers -/

/-- A text without brackets, quotes and separators. -/
def IsPlain (s : String) : Prop := ∀ c ∈ s.toList, isPlainChar c = true

theorem numeric_isPlainChar : IsNumeric isPlainChar := fun c hc => by
  rw [isNumberChar, Bool.or_eq_true] at hc
  rcases hc with hc | hc
  · exact isPlainChar_of_isNumeralChar hc
  · exact List.all_eq_true.mp (by decide) c (List.contains_iff_mem.mp hc)

theorem closed_number (n : Number) (h : ∀ negative signaling payload,
    n = .decimal (.nan negative signaling payload) → IsPlain payload) : Closed n.text.toList := by
  by_cases hd : ∃ address, n = .declared address
  · obtain ⟨address, rfl⟩ := hd
    exact closed_of_all (by rw [Number.text]; decide)
  rcases consists_number numeric_isPlainChar n h (not_exists.mp hd) with hn | ⟨inner, hinner, hn⟩
  · exact .of_plain hn
  · have hclosed : Closed inner.toList := .of_plain hinner
    rw [hn]
    simpa [String.toList_append] using Closed.bracket (.inr (.inr rfl)) (.inr (.inr rfl)) hclosed.inner

/-! ## Numbers have a text -/

theorem int_ne_empty (i : Int) : toString i ≠ "" := fun h => Numeral.toList_int_ne_nil i (congrArg String.toList h)

theorem layout_ne_empty (point : String) (d : Scientific) : Double.layout point d ≠ "" := by
  simp only [Double.layout]
  split
  · split
    · simp
    · split <;> simp
  · simp

theorem textWith_ne_empty (point : String) (x : Double) : x.textWith point ≠ "" := by
  cases x with
  | nan => simp [Double.textWith]
  | infinite negative => simp [Double.textWith]
  | finite negative m q => simp [Double.textWith, layout_ne_empty]

theorem pointed_ne_nil {digits : List Char} (h : digits ≠ []) (point : Int) :
    (pointed digits point).1 ++ (pointed digits point).2 ≠ [] := by
  unfold pointed
  split
  · simp
  · split <;> simp [h]

theorem decimal_ne_empty (d : Decimal) : d.text ≠ "" := by
  cases d with
  | nan negative signaling payload => cases signaling <;> simp [Decimal.text]
  | infinite negative => simp [Decimal.text]
  | finite negative coefficient exponent =>
      have hdigits : (toString coefficient).toList ≠ [] := Numeral.toList_int_ne_nil coefficient
      obtain ⟨point, tail, htext⟩ : ∃ point tail, (Decimal.finite negative coefficient exponent).text =
          Decimal.sign negative ++ String.ofList ((pointed (toString coefficient).toList point).1 ++
            (pointed (toString coefficient).toList point).2) ++ tail := ⟨_, _, rfl⟩
      intro h
      rw [htext, String.append_eq_empty_iff, String.append_eq_empty_iff, String.ofList_eq_empty_iff] at h
      exact pointed_ne_nil hdigits point h.1.2

theorem number_ne_empty (n : Number) : n.text ≠ "" := by
  cases n with
  | int i => exact int_ne_empty i
  | float x => exact textWith_ne_empty _ x
  | decimal d => exact decimal_ne_empty d
  | declared address => simp [Number.text]
  | fraction num den =>
      simp only [Number.text]
      split
      · exact int_ne_empty num
      · simp
  | complex re im =>
      simp only [Number.text, Number.complexText]
      split <;> simp

end Introspect.Perl
