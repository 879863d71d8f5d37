import Introspect.Text.Parts
/-! The parts between the marks of a text, put together again with the marks, are the text. -/
namespace Introspect.Text

variable {mark c : Char} {cs part rest : List Char} {names : List (List Char)}

theorem exists_cut (mark : Char) (cs : List Char) : ∃ part parts, cut mark cs = part :: parts := by
  cases cs with
  | nil => exact ⟨[], [], rfl⟩
  | cons c rest =>
      rw [cut]
      split
      · exact ⟨_, _, rfl⟩
      · split
        · exact ⟨_, _, rfl⟩
        · exact ⟨_, _, rfl⟩

theorem cut_ne_nil : cut mark cs ≠ [] := by
  obtain ⟨part, parts, hcut⟩ := exists_cut mark cs
  simp [hcut]

theorem cut_mark : cut mark (mark :: rest) = [] :: cut mark rest := by simp [cut]

theorem cut_cons (hc : c ≠ mark) {parts : List (List Char)} (h : cut mark rest = part :: parts) :
    cut mark (c :: rest) = (c :: part) :: parts := by
  simp [cut, hc, h]

theorem intercalate_cut (mark : Char) (cs : List Char) : [mark].intercalate (cut mark cs) = cs := by
  induction cs with
  | nil => simp [cut]
  | cons c rest ih =>
      obtain ⟨part, parts, hcut⟩ := exists_cut mark rest
      by_cases hc : c = mark
      · subst hc
        rw [cut_mark, hcut, List.intercalate_cons_cons, ← hcut, ih]
        rfl
      · rw [cut_cons hc hcut]
        rw [hcut] at ih
        cases parts with
        | nil => simpa using ih
        | cons next parts =>
            rw [List.intercalate_cons_cons] at ih ⊢
            exact congrArg (c :: ·) ih

theorem not_mem_of_mem_cut (h : part ∈ cut mark cs) : mark ∉ part := by
  induction cs generalizing part with
  | nil => simp_all [cut]
  | cons c rest ih =>
      obtain ⟨first, parts, hcut⟩ := exists_cut mark rest
      by_cases hc : c = mark
      · subst hc
        rw [cut_mark] at h
        rcases List.mem_cons.mp h with rfl | h
        · exact List.not_mem_nil
        · exact ih h
      · rw [cut_cons hc hcut] at h
        rw [hcut] at ih
        rcases List.mem_cons.mp h with rfl | h
        · intro hmem
          rcases List.mem_cons.mp hmem with rfl | hmem
          · exact hc rfl
          · exact ih List.mem_cons_self hmem
        · exact ih (List.mem_cons_of_mem _ h)

theorem cut_of_not_mem (h : mark ∉ part) : cut mark part = [part] := by
  induction part with
  | nil => rfl
  | cons c part ih =>
      rw [List.mem_cons, not_or] at h
      exact cut_cons (Ne.symm h.1) (ih h.2)

theorem cut_append (h : mark ∉ part) : cut mark (part ++ mark :: rest) = part :: cut mark rest := by
  induction part with
  | nil => exact cut_mark
  | cons c part ih =>
      rw [List.mem_cons, not_or] at h
      exact cut_cons (Ne.symm h.1) (ih h.2)

theorem cut_intercalate (hne : names ≠ []) (h : ∀ part ∈ names, mark ∉ part) :
    cut mark ([mark].intercalate names) = names := by
  induction names with
  | nil => exact absurd rfl hne
  | cons part names ih =>
      have hpart := h part List.mem_cons_self
      cases names with
      | nil =>
          rw [List.intercalate_singleton]
          exact cut_of_not_mem hpart
      | cons next names =>
          have hrest := ih (List.cons_ne_nil _ _) fun part' hpart' => h part' (List.mem_cons_of_mem _ hpart')
          rw [List.intercalate_cons_cons, List.append_assoc]
          exact (cut_append hpart).trans (congrArg (part :: ·) hrest)

/-! ## Qualified names -/

theorem parts_ne_nil (s : String) : parts s ≠ [] := by simp [parts, cut_ne_nil]

theorem map_toList_map_ofList (names : List (List Char)) : (names.map String.ofList).map String.toList = names := by
  simp [Function.comp_def]

theorem intercalate_parts (s : String) : ".".intercalate (parts s) = s := by
  apply String.toList_inj.mp
  rw [String.toList_intercalate, parts, map_toList_map_ofList]
  exact intercalate_cut '.' s.toList

/-- The first names of a qualified name are the parts of what they make together. -/
theorem parts_intercalate_take {s : String} {n : Nat} (hn : 0 < n) :
    parts (".".intercalate ((parts s).take n)) = (parts s).take n := by
  have hne : (cut '.' s.toList).take n ≠ [] := by simp [cut_ne_nil, Nat.ne_of_gt hn]
  have hcut := cut_intercalate hne fun part hpart => not_mem_of_mem_cut (List.mem_of_mem_take hpart)
  rw [parts, parts, String.toList_intercalate, ← List.map_take, map_toList_map_ofList]
  exact congrArg (List.map String.ofList) hcut

end Introspect.Text
