import Introspect.Perl.Path
import Introspect.Proofs.Perl.Balanced
/-!
Texts of paths. The last bracket of a closed text is where the scanner finds it, so that a path is read back
from its text.
-/
namespace Introspect.Perl

/-! ## The last bracket -/

theorem scanChar_succ {d e : Nat} {q q' : Quoting} {c : Char} (h : scanChar (d, q) c = some (e, q')) :
    scanChar (d + 1, q) c = some (e + 1, q') := by
  cases q with
  | escaped => cases h; rfl
  | inside => cases h; rfl
  | outside =>
      simp only [scanChar, Nat.add_one_ne_zero, ↓reduceIte, and_false, Nat.add_sub_cancel] at h ⊢
      by_cases hq : c = Text.apostrophe
      · rw [if_pos hq] at h ⊢
        cases h
        rfl
      · rw [if_neg hq] at h ⊢
        by_cases ho : isOpening c = true
        · rw [if_pos ho] at h ⊢
          cases h
          rfl
        · rw [if_neg ho] at h ⊢
          by_cases hc : isClosing c = true
          · rw [if_pos hc] at h ⊢
            split at h <;> cases h
            rw [Nat.sub_add_cancel (Nat.pos_of_ne_zero ‹_›)]
          · rw [if_neg hc] at h ⊢
            split at h <;> cases h
            rfl

/-- One more open bracket stays open. -/
theorem scan_succ {d e : Nat} {q q' : Quoting} {text : List Char} (h : scan (d, q) text = some (e, q')) :
    scan (d + 1, q) text = some (e + 1, q') := by
  induction text generalizing d q with
  | nil => cases h; rfl
  | cons c text ih =>
      rw [scan_cons, Option.bind_eq_some_iff] at h ⊢
      obtain ⟨⟨d', q''⟩, hc, h⟩ := h
      exact ⟨(d' + 1, q''), scanChar_succ hc, ih h⟩

theorem Closed.of_append {a b : List Char} (ha : Closed a) (h : Closed (a ++ b)) : Closed b := fun d => by
  have hscan := h d
  rwa [scan_append, ha d] at hscan

/-- A bracket that closes a text is opened at one place. -/
theorem Closed.bracket_inj {a a' b b' : List Char} {opening opening' closing closing' : Char} (ha : Closed a)
    (ha' : Closed a') (hb : Closed b) (hb' : Closed b') (ho : isOpening opening = true)
    (ho' : isOpening opening' = true)
    (h : a ++ opening :: (b ++ [closing]) = a' ++ opening' :: (b' ++ [closing'])) :
    a = a' ∧ opening = opening' ∧ b = b' ∧ closing = closing' := by
  -- Were the one bracket opened further on, it would stand inside the other and end before it does.
  have hextra {a b b' more : List Char} {opening opening' closing closing' : Char} (ha : Closed a)
      (hmore : Closed (a ++ more)) (hb : Closed b) (ho : isOpening opening = true)
      (h : opening :: (b ++ [closing]) = more ++ opening' :: (b' ++ [closing'])) : more = [] := by
    cases more with
    | nil => rfl
    | cons c more =>
        simp only [List.cons_append, List.cons.injEq] at h
        obtain ⟨rfl, h⟩ := h
        have hinner : b = more ++ opening' :: b' := by
          rw [← List.cons_append, ← List.append_assoc] at h
          exact List.append_inj_left' h rfl
        have hopen : scanChar (0, .outside) opening = some (1, .outside) := by
          simp only [isOpening, Bool.or_eq_true, decide_eq_true_eq] at ho
          rcases ho with (rfl | rfl) | rfl <;> rfl
        have hend := Closed.of_append ha hmore 0
        rw [scan_cons, hopen, Option.bind_some] at hend
        have hstart := hb 0
        rw [hinner, scan_append, Option.bind_eq_some_iff] at hstart
        obtain ⟨⟨d, q⟩, hscan, -⟩ := hstart
        rw [scan_succ hscan] at hend
        cases hend
  rcases List.append_eq_append_iff.mp h with ⟨more, rfl, hrest⟩ | ⟨more, rfl, hrest⟩
  · cases hextra ha ha' hb ho hrest
    simp_all
  · cases hextra ha' ha hb' ho' hrest
    simp_all

/-! ## Paths -/

namespace Path

/-- A subscript takes an arrow, unless it follows another one. -/
def Joins (subscripted : Bool) (arrow : List Char) : Prop :=
  arrow = ['-', '>'] ∨ subscripted = true ∧ arrow = []

/-- What a text means as a path, and whether it ends in a subscript. -/
inductive Reads : Bool → List Char → Path → Prop where
  | root : Reads false "$VAR1".toList .root
  | target {s text p} : Reads s text p → Reads false (['$'] ++ '\x7b' :: (text ++ ['\x7d'])) (.target p)
  | item {s text p arrow} (index) : Reads s text p → Joins s arrow →
      Reads true (text ++ arrow ++ '[' :: (Nat.toDigits 10 index ++ [']'])) (.item p index)
  | entry {s text p arrow key} : Reads s text p → Joins s arrow → Closed key →
      Reads true (text ++ arrow ++ '\x7b' :: (key ++ ['\x7d'])) (.entry p key)

/-- A path whose keys are closed. -/
def Proper : Path → Prop
  | .root => True
  | .target p => p.Proper
  | .item p _ => p.Proper
  | .entry p key => p.Proper ∧ Closed key

variable {s s' : Bool} {text text' arrow arrow' : List Char} {p q : Path}

theorem Joins.closed (h : Joins s arrow) : Closed arrow := by
  rcases h with rfl | ⟨-, rfl⟩
  · exact closed_of_all (by decide)
  · exact .nil

theorem closed_index (n : Nat) : Closed (Nat.toDigits 10 n) := .of_plain fun c hc =>
  isPlainChar_of_isNumeralChar (by simp [isNumeralChar, Nat.isDigit_of_mem_toDigits (by decide) (by decide) hc])

namespace Reads

theorem closed (h : Reads s text p) : Closed text := by
  induction h with
  | root => exact closed_of_all (by decide)
  | target _ ih =>
      have hdollar : Closed ['$'] := closed_of_all (by decide)
      exact hdollar.append (.bracket (.inr (.inl rfl)) (.inr (.inl rfl)) ih.inner)
  | item index _ hj ih =>
      exact (ih.append hj.closed).append (.bracket (.inl rfl) (.inl rfl) (closed_index index).inner)
  | entry _ hj hk ih => exact (ih.append hj.closed).append (.bracket (.inr (.inl rfl)) (.inr (.inl rfl)) hk.inner)

/-- What stands in front of a subscript is more than the mark of a target. -/
theorem ne_dollar (h : Reads s text p) (arrow : List Char) : text ++ arrow ≠ ['$'] := by
  intro he
  have hlength : 2 ≤ text.length := by
    cases h with
    | root => decide
    | _ => simp only [List.length_append, List.length_cons]; omega
  have htotal := congrArg List.length he
  simp at htotal
  omega

theorem getLast?_ne (h : Reads s text p) : text.getLast? ≠ some '>' := by
  cases h with
  | root => decide
  | _ => simp [List.getLast?_cons]

/-- The text and the arrow after it are told apart. -/
theorem arrow_inj (h : Reads s text p) (h' : Reads s' text' q) (hj : Joins s arrow) (hj' : Joins s' arrow')
    (he : text ++ arrow = text' ++ arrow') : text = text' := by
  rcases hj with rfl | ⟨-, rfl⟩ <;> rcases hj' with rfl | ⟨-, rfl⟩
  · exact List.append_cancel_right he
  · rw [List.append_nil] at he
    exact absurd (by rw [← he]; simp) h'.getLast?_ne
  · rw [List.append_nil] at he
    exact absurd (by rw [he]; simp) h.getLast?_ne
  · simpa using he

theorem toDigits_inj {m n : Nat} (h : Nat.toDigits 10 m = Nat.toDigits 10 n) : m = n := by
  rw [← Nat.ofDigitChars_ten_toDigits (n := m), h, Nat.ofDigitChars_ten_toDigits]

theorem getLast?_root : "$VAR1".toList.getLast? = some '1' := by decide

/-- A text is read in one way. -/
theorem unique (h : Reads s text p) (h' : Reads s' text q) : p = q := by
  have hdollar : Closed ['$'] := closed_of_all (by decide)
  induction h generalizing s' q with
  | root =>
      generalize he : "$VAR1".toList = whole at h'
      have hlast := getLast?_root
      rw [he] at hlast
      cases h' with
      | root => rfl
      | _ => simp [List.getLast?_cons] at hlast
  | @target s text p ht ih =>
      generalize he : ['$'] ++ '\x7b' :: (text ++ ['\x7d']) = whole at h'
      cases h' with
      | root => exact absurd (he ▸ getLast?_root) (by simp [List.getLast?_cons])
      | target ht' =>
          obtain ⟨-, -, rfl, -⟩ := hdollar.bracket_inj hdollar ht.closed ht'.closed rfl rfl he
          rw [ih ht']
      | item index ht' hj' =>
          obtain ⟨-, ho, -⟩ := hdollar.bracket_inj (ht'.closed.append hj'.closed) ht.closed (closed_index index) rfl rfl he
          exact absurd ho (by decide)
      | entry ht' hj' hk' =>
          obtain ⟨ha, -⟩ := hdollar.bracket_inj (ht'.closed.append hj'.closed) ht.closed hk' rfl rfl he
          exact absurd ha.symm (ht'.ne_dollar _)
  | @item s text p arrow index ht hj ih =>
      generalize he : text ++ arrow ++ '[' :: (Nat.toDigits 10 index ++ [']']) = whole at h'
      have hfront := ht.closed.append hj.closed
      cases h' with
      | root => exact absurd (he ▸ getLast?_root) (by simp [List.getLast?_cons])
      | target ht' =>
          obtain ⟨-, ho, -⟩ := hfront.bracket_inj hdollar (closed_index index) ht'.closed rfl rfl he
          exact absurd ho (by decide)
      | item index' ht' hj' =>
          obtain ⟨ha, -, hi, -⟩ := hfront.bracket_inj (ht'.closed.append hj'.closed) (closed_index index)
            (closed_index index') rfl rfl he
          obtain rfl := ht.arrow_inj ht' hj hj' ha
          rw [ih ht', toDigits_inj hi]
      | entry ht' hj' hk' =>
          obtain ⟨-, ho, -⟩ := hfront.bracket_inj (ht'.closed.append hj'.closed) (closed_index index) hk' rfl rfl he
          exact absurd ho (by decide)
  | @entry s text p arrow key ht hj hk ih =>
      generalize he : text ++ arrow ++ '\x7b' :: (key ++ ['\x7d']) = whole at h'
      have hfront := ht.closed.append hj.closed
      cases h' with
      | root => exact absurd (he ▸ getLast?_root) (by simp [List.getLast?_cons])
      | target ht' =>
          obtain ⟨ha, -⟩ := hfront.bracket_inj hdollar hk ht'.closed rfl rfl he
          exact absurd ha (ht.ne_dollar _)
      | item index' ht' hj' =>
          obtain ⟨-, ho, -⟩ := hfront.bracket_inj (ht'.closed.append hj'.closed) hk (closed_index index') rfl rfl he
          exact absurd ho (by decide)
      | entry ht' hj' hk' =>
          obtain ⟨ha, -, rfl, -⟩ := hfront.bracket_inj (ht'.closed.append hj'.closed) hk hk' rfl rfl he
          obtain rfl := ht.arrow_inj ht' hj hj' ha
          rw [ih ht']

end Reads

/-! ## The text of a path -/

def endsInSubscript : Path → Bool
  | .root | .target _ => false
  | .item .. | .entry .. => true

theorem exists_dollar (p : Path) : ∃ rest, p.text = '$' :: rest := by
  induction p with
  | root => exact ⟨['V', 'A', 'R', '1'], by decide⟩
  | target p _ => exact ⟨_, rfl⟩
  | item p index ih => obtain ⟨rest, h⟩ := ih; exact ⟨_, by rw [text, h]; rfl⟩
  | entry p key ih => obtain ⟨rest, h⟩ := ih; exact ⟨_, by rw [text, h]; rfl⟩

theorem joins_arrow (p : Path) : Joins p.endsInSubscript p.arrow := by
  unfold arrow
  split
  · exact .inl rfl
  · rename_i h
    refine .inr ⟨?_, rfl⟩
    cases p <;> simp_all [takesArrow, leavesTarget, endsInSubscript]

/-- A path is read back from its text. -/
theorem Proper.reads (h : p.Proper) : Reads p.endsInSubscript p.text p := by
  induction p with
  | root => exact .root
  | target p ih => simpa [text, endsInSubscript] using Reads.target (ih h)
  | item p index ih => simpa [text, endsInSubscript] using Reads.item index (ih h) p.joins_arrow
  | entry p key ih => simpa [text, endsInSubscript] using Reads.entry (ih h.1) p.joins_arrow h.2

theorem Proper.closed (h : p.Proper) : Closed p.text := h.reads.closed

theorem Proper.text_inj (h : p.Proper) (h' : q.Proper) (he : p.text = q.text) : p = q :=
  h.reads.unique (he ▸ h'.reads)

end Path

end Introspect.Perl
