import Mathlib.Data.List.Basic
import Introspect.Reflect.Parent
/-! Private names, as a class writes them and as they are read back from its namespace. -/
namespace Introspect.PrivateName

variable {className name : String}

theorem toList_opening :
    (opening className).toList = '_' :: (className.toList.dropWhile (· = '_') ++ ['_', '_']) := by
  simp [opening]

theorem endsWith_iff {s : String} : s.endsWith "__" = true ↔ ['_', '_'] <:+ s.toList := by
  rw [← String.endsWith_toSlice, String.Slice.endsWith_string_iff, String.copy_toSlice]
  rfl

theorem isMarked_iff :
    isMarked name = true ↔ ['_', '_'] <+: name.toList ∧ ¬ ['_', '_'] <:+ name.toList := by
  rw [isMarked, Bool.and_eq_true, String.startsWith_string_iff, Bool.not_eq_true', ← Bool.not_eq_true,
    endsWith_iff]
  rfl

/-- What follows the two underscores of a marked name does not end a name with two underscores. -/
theorem not_endsWith_of_isMarked {s rest : List Char} (hname : name.toList = '_' :: '_' :: rest)
    (h : ¬ ['_', '_'] <:+ name.toList) : ¬ ['_', '_'] <:+ (s ++ ['_', '_']) ++ rest := by
  intro hsuffix
  apply h
  rw [hname]
  have hrest : ['_', '_'] <:+ ['_', '_'] ++ rest := by
    refine List.suffix_of_suffix_length_le hsuffix ⟨s, by simp⟩ ?_
    simp
  exact hrest

/-- A class leads the name that it writes for a private one back to that name. -/
theorem plain_key_of_isMarked (h : isMarked name = true) : plain className (key className name) = name := by
  obtain ⟨⟨rest, hname⟩, hend⟩ := isMarked_iff.mp h
  have hname : name.toList = '_' :: '_' :: rest := hname.symm
  rw [PrivateName.key, h, Bool.true_and]
  by_cases ho : opening className = "___"
  · simp [plain, ho]
  · have hkey : (opening className ++ String.ofList (name.toList.drop 2)).toList =
        (opening className).toList ++ rest := by simp [hname]
    have hstart : (opening className ++ String.ofList (name.toList.drop 2)).startsWith
        (opening className) = true := by
      rw [String.startsWith_string_iff, hkey]
      exact List.prefix_append _ _
    have hends : (opening className ++ String.ofList (name.toList.drop 2)).endsWith "__" = false := by
      rw [← Bool.not_eq_true, endsWith_iff, hkey, toList_opening, ← List.cons_append]
      exact not_endsWith_of_isMarked hname hend
    simp only [ho, ne_eq, not_false_eq_true, decide_true, if_true, plain, hstart, hends, Bool.not_false,
      Bool.and_self]
    rw [hkey, ← String.length_toList, List.drop_left, ← String.toList_inj]
    simp [hname]

/-- Each class leads the name that it writes for the name back to it. -/
def IsProper (className name : String) : Prop := isMarked name = true ∨ plain className name = name

theorem plain_key (h : IsProper className name) : plain className (key className name) = name := by
  by_cases hm : isMarked name = true
  · exact plain_key_of_isMarked hm
  · have hkey : key className name = name := by simp [key, hm]
    rw [hkey]
    exact h.resolve_left hm

/-- Public names are written as they are. -/
theorem isProper_of_public (h : World.isPrivateName name = false) : IsProper className name := by
  right
  unfold plain
  rw [World.isPrivateName, Bool.and_eq_false_iff, Bool.not_eq_false'] at h
  rcases h with hstart | hend
  · have hnot : name.startsWith (opening className) = false := by
      rw [String.startsWith_string_eq_false_iff] at hstart ⊢
      rintro ⟨rest, hrest⟩
      apply hstart
      rw [toList_opening, List.cons_append] at hrest
      exact ⟨_, hrest⟩
    simp [hnot]
  · simp [hend]

end Introspect.PrivateName
