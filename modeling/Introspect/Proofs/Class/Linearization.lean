import Introspect.Class.Linearization
/-! What a merged order holds: each class of the rows that are merged, and no other. -/
namespace Introspect.Linearization

variable {α : Type} [DecidableEq α] {c x : α} {row : List α} {rows : List (List α)}

theorem mem_of_mem_dropHead (h : x ∈ dropHead c row) : x ∈ row := by
  cases row with
  | nil => cases h
  | cons y rest =>
      rw [dropHead] at h
      split at h
      · exact List.mem_cons_of_mem _ h
      · exact h

theorem eq_or_mem_dropHead (h : x ∈ row) : x = c ∨ x ∈ dropHead c row := by
  cases row with
  | nil => cases h
  | cons y rest =>
      rw [dropHead]
      split
      · rename_i hy
        exact (List.mem_cons.mp h).imp_left fun (hx : x = y) => hx.trans hy
      · exact .inr h

theorem mem_of_candidate? (h : candidate? rows = some c) : ∃ row ∈ rows, c ∈ row := by
  obtain ⟨row, hrow, hhead⟩ := List.mem_filterMap.mp (List.mem_of_find?_eq_some h)
  exact ⟨row, hrow, List.mem_of_head? hhead⟩

omit [DecidableEq α] in
theorem not_mem_of_all_isEmpty (h : rows.all List.isEmpty = true) : ¬ ∃ row ∈ rows, x ∈ row := by
  rintro ⟨row, hrow, hx⟩
  rw [List.isEmpty_iff.mp (List.all_eq_true.mp h row hrow)] at hx
  cases hx

theorem mem_merge? {fuel : Nat} {order : List α} (h : merge? fuel rows = some order) :
    x ∈ order ↔ ∃ row ∈ rows, x ∈ row := by
  have hdone {rows : List (List α)} (hempty : rows.all List.isEmpty = true) :
      x ∈ ([] : List α) ↔ ∃ row ∈ rows, x ∈ row :=
    iff_of_false List.not_mem_nil (not_mem_of_all_isEmpty hempty)
  induction fuel generalizing rows order with
  | zero =>
      unfold merge? at h
      split at h
      · cases h; exact hdone ‹_›
      · cases h
  | succ fuel ih =>
      unfold merge? at h
      split at h
      · cases h; exact hdone ‹_›
      · obtain ⟨c, hc, h⟩ := Option.bind_eq_some_iff.mp h
        obtain ⟨later, hlater, h⟩ := Option.bind_eq_some_iff.mp h
        cases h
        refine List.mem_cons.trans ((or_congr_right (ih hlater)).trans ⟨?_, ?_⟩)
        · rintro (rfl | ⟨row, hrow, hx⟩)
          · exact mem_of_candidate? hc
          · obtain ⟨row', hrow', rfl⟩ := List.mem_map.mp hrow
            exact ⟨row', hrow', mem_of_mem_dropHead hx⟩
        · rintro ⟨row, hrow, hx⟩
          exact (eq_or_mem_dropHead hx).imp_right fun hx => ⟨_, List.mem_map_of_mem hrow, hx⟩

/-- The order of a class holds the class itself, its parents, and what their orders hold. -/
theorem mem_linearize? {self : α} {parents order : List α} {orders : List (List α)}
    (h : linearize? self parents orders = some order) :
    x ∈ order ↔ x = self ∨ (∃ row ∈ orders, x ∈ row) ∨ x ∈ parents := by
  obtain ⟨merged, hmerged, rfl⟩ := Option.map_eq_some_iff.mp h
  rw [List.mem_cons, mem_merge? hmerged]
  simp only [List.mem_append, List.mem_singleton, or_and_right, exists_or, exists_eq_left]

end Introspect.Linearization
