import Introspect.Text.Blank
import Introspect.Text.Lines
import Mathlib.Data.List.Basic
import Mathlib.Data.List.TakeWhile
/-! Lines with their ends are read back as these lines, and what stands between blanks is what trimming leaves. -/
namespace Introspect.Text

variable {p : Char → Bool} {c : Char} {cs before after row rest line : List Char} {rows : List (List Char)}

/-! ## Blanks around a text -/

/-- Blanks that end no line. -/
def IsGap (cs : List Char) : Prop := ∀ c ∈ cs, isBlank c = true ∧ isLineEnd c = false

/-- No blank at either end. -/
def Trimmed (cs : List Char) : Prop := (∀ c ∈ cs.head?, isBlank c = false) ∧ ∀ c ∈ cs.getLast?, isBlank c = false

instance (cs : List Char) : Decidable (IsGap cs) := List.decidableBAll _ cs

instance (cs : List Char) : Decidable (Trimmed cs) :=
  @instDecidableAnd _ _ (Option.decidableForallMem _) (Option.decidableForallMem _)

theorem dropWhile_between (hbefore : ∀ c ∈ before, p c = true) (hcs : ∀ c ∈ cs.head?, p c = false) :
    (before ++ cs).dropWhile p = cs := by
  rw [List.dropWhile_append_of_pos hbefore]
  cases cs with
  | nil => rfl
  | cons c rest => exact List.dropWhile_cons_of_neg (Bool.not_eq_true _ ▸ hcs c rfl)

theorem trimBy_of_all (h : ∀ c ∈ cs, p c = true) : trimBy p cs = [] := by
  have hdrop : cs.dropWhile p = [] := List.dropWhile_eq_nil_iff.mpr h
  rw [trimBy, hdrop]
  rfl

theorem trimBy_between (hbefore : ∀ c ∈ before, p c = true) (hafter : ∀ c ∈ after, p c = true)
    (hfirst : ∀ c ∈ cs.head?, p c = false) (hlast : ∀ c ∈ cs.getLast?, p c = false) :
    trimBy p (before ++ cs ++ after) = cs := by
  cases cs with
  | nil =>
      apply trimBy_of_all
      intro c hc
      rw [List.append_nil] at hc
      exact (List.mem_append.mp hc).elim (hbefore c) (hafter c)
  | cons c rest =>
      have hstart : (before ++ c :: rest ++ after).dropWhile p = c :: rest ++ after := by
        rw [List.append_assoc]
        exact dropWhile_between hbefore hfirst
      have hend : (after.reverse ++ (c :: rest).reverse).dropWhile p = (c :: rest).reverse := by
        apply dropWhile_between
        · intro d hd
          exact hafter d (List.mem_reverse.mp hd)
        · rw [List.head?_reverse]
          exact hlast
      rw [trimBy, hstart, List.reverse_append, hend, List.reverse_reverse]

theorem Trimmed.trimBy (h : Trimmed cs) (hbefore : IsGap before) (hafter : IsGap after) :
    trimBy isBlank (before ++ cs ++ after) = cs :=
  trimBy_between (fun c hc => (hbefore c hc).1) (fun c hc => (hafter c hc).1) h.1 h.2

/-- What a text starts with stays when it is trimmed. -/
theorem Trimmed.prefix_trimBy {start : List Char} (h : Trimmed start) (hne : start ≠ []) (hbefore : IsGap before)
    (hcs : start <+: cs) : start <+: Text.trimBy isBlank (before ++ cs) := by
  obtain ⟨rest, rfl⟩ := hcs
  have hfirst : (before ++ (start ++ rest)).dropWhile isBlank = start ++ rest := by
    apply dropWhile_between fun c hc => (hbefore c hc).1
    rw [List.head?_append_of_ne_nil _ hne]
    exact h.1
  have hlast : ([] ++ start.reverse).dropWhile isBlank = start.reverse := by
    apply dropWhile_between
    · intro c hc
      exact absurd hc List.not_mem_nil
    · rw [List.head?_reverse]
      exact h.2
  rw [Text.trimBy, hfirst, List.reverse_append, List.dropWhile_append]
  split
  · refine ⟨[], ?_⟩
    rw [← List.nil_append start.reverse, hlast, List.reverse_reverse, List.append_nil]
  · rw [List.reverse_append, List.reverse_reverse]
    exact List.prefix_append _ _

theorem Trimmed.append (h : Trimmed before) (hne : before ≠ []) (h' : Trimmed after) (hne' : after ≠ []) (cs : List Char) :
    Trimmed (before ++ cs ++ after) := by
  obtain ⟨c, before, rfl⟩ := List.exists_cons_of_ne_nil hne
  constructor
  · exact h.1
  · rw [List.getLast?_append_of_ne_nil _ hne']
    exact h'.2

theorem isGap_nil : IsGap [] := fun _ hc => absurd hc List.not_mem_nil

theorem IsGap.append (h : IsGap before) (h' : IsGap after) : IsGap (before ++ after) := by
  intro c hc
  exact (List.mem_append.mp hc).elim (h c) (h' c)

/-! ## Lines -/

/-- No line ends inside. -/
def Inline (cs : List Char) : Prop := ∀ c ∈ cs, isLineEnd c = false

instance (cs : List Char) : Decidable (Inline cs) := List.decidableBAll _ cs

theorem IsGap.inline (h : IsGap cs) : Inline cs := fun c hc => (h c hc).2

theorem Inline.append (h : Inline before) (h' : Inline after) : Inline (before ++ after) := by
  intro c hc
  exact (List.mem_append.mp hc).elim (h c) (h' c)

theorem Inline.cons (hc : isLineEnd c = false) (h : Inline cs) : Inline (c :: cs) := List.forall_mem_cons.mpr ⟨hc, h⟩

/-- A text that is the rows one after the other, each with a line end of its own; the last one needs none unless it is
empty. A carriage return ends a row alone only where no line feed follows. -/
inductive Written : List Char → List (List Char) → Prop where
  | nil : Written [] []
  | last {row : List Char} (hrow : Inline row) (hne : row ≠ []) : Written row [row]
  | ended {row rest : List Char} {c : Char} {rows : List (List Char)} (hrow : Inline row) (hc : isLineEnd c = true)
      (halone : c = '\r' → rest.head? ≠ some '\n') (hrest : Written rest rows) : Written (row ++ c :: rest) (row :: rows)
  | returned {row rest : List Char} {rows : List (List Char)} (hrow : Inline row) (hrest : Written rest rows) :
      Written (row ++ '\r' :: '\n' :: rest) (row :: rows)

/-- Any rows can be written. -/
theorem written_feeds (h : ∀ row ∈ rows, Inline row) : Written (rows.flatMap (· ++ ['\n'])) rows := by
  induction rows with
  | nil => exact .nil
  | cons row rows ih =>
      rw [List.flatMap_cons, List.append_assoc]
      apply Written.ended (h row List.mem_cons_self) rfl
      · intro hc
        exact absurd hc (by decide)
      · exact ih fun row hrow => h row (List.mem_cons_of_mem _ hrow)

theorem splitLines_inline (hrow : Inline row) : splitLines line (row ++ rest) = splitLines (row.reverse ++ line) rest := by
  induction row generalizing line with
  | nil => rfl
  | cons c row ih =>
      have hc := hrow c List.mem_cons_self
      have hreturn : c ≠ '\r' := by
        rintro rfl
        exact absurd hc (by decide)
      rw [List.cons_append, splitLines, if_neg (by rw [hc]; exact Bool.false_ne_true),
        ih fun d hd => hrow d (List.mem_cons_of_mem _ hd), List.reverse_cons, List.append_assoc]
      · rfl
      · intro _ h
        exact absurd h hreturn

theorem splitLines_ended (hc : isLineEnd c = true) (halone : c = '\r' → rest.head? ≠ some '\n') :
    splitLines line (c :: rest) = line.reverse :: splitLines [] rest := by
  rw [splitLines, if_pos hc]
  intro more h hrest
  apply halone h
  rw [hrest]
  rfl

theorem Written.splitLines (h : Written cs rows) : splitLines [] cs = rows := by
  induction h with
  | nil => rfl
  | @last row hrow hne =>
      have hsplit : Text.splitLines [] (row ++ []) = Text.splitLines (row.reverse ++ []) [] := splitLines_inline hrow
      rw [List.append_nil, List.append_nil] at hsplit
      rw [hsplit, Text.splitLines, if_neg (by simpa using hne), List.reverse_reverse]
  | ended hrow hc halone _ ih =>
      rw [splitLines_inline hrow, splitLines_ended hc halone, ih, List.append_nil, List.reverse_reverse]
  | returned hrow _ ih =>
      rw [splitLines_inline hrow, Text.splitLines, ih, List.append_nil, List.reverse_reverse]

theorem Written.lines {s : String} (h : Written s.toList rows) : lines s = rows.map String.ofList := by
  rw [Text.lines, h.splitLines]

end Introspect.Text
