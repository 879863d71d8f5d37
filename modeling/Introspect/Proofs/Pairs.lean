import Introspect.Pairs
import Mathlib.Data.List.Nodup
/-!
Pairs with at most one pair for each key are known, up to their order, by what they have under each key.
-/
namespace Introspect.Pairs

variable {α : Type} {key k : String} {value v : α} {pairs more : List (String × α)}

/-- At most one pair for each key. -/
def Distinct (pairs : List (String × α)) : Prop := (pairs.map (·.1)).Nodup

instance (pairs : List (String × α)) : Decidable (Distinct pairs) :=
  inferInstanceAs (Decidable (pairs.map (·.1)).Nodup)

theorem distinct_cons {p : String × α} :
    Distinct (p :: pairs) ↔ (∀ q ∈ pairs, q.1 ≠ p.1) ∧ Distinct pairs := by
  simp only [Distinct, List.map_cons, List.nodup_cons, List.mem_map, not_exists, not_and]

theorem Distinct.perm (h : Distinct pairs) (hp : pairs.Perm more) : Distinct more :=
  (hp.map _).nodup_iff.mp h

theorem lookup_eq_none (h : ∀ q ∈ pairs, q.1 ≠ k) : pairs.lookup k = none := by
  induction pairs with
  | nil => rfl
  | cons p rest ih =>
      rw [List.lookup_cons, beq_eq_false_iff_ne.mpr (h p List.mem_cons_self).symm]
      exact ih fun q hq => h q (List.mem_cons_of_mem _ hq)

theorem mem_of_lookup {κ : Type} [BEq κ] [LawfulBEq κ] {pairs : List (κ × α)} {k : κ}
    (h : pairs.lookup k = some v) : (k, v) ∈ pairs := by
  obtain ⟨before, after, rfl, -⟩ := List.lookup_eq_some_iff.mp h
  exact List.mem_append_right _ List.mem_cons_self

theorem mem_iff_lookup (h : Distinct pairs) : (k, v) ∈ pairs ↔ pairs.lookup k = some v := by
  induction pairs with
  | nil => simp
  | cons p rest ih =>
      obtain ⟨hp, hrest⟩ := distinct_cons.mp h
      rw [List.lookup_cons, List.mem_cons]
      by_cases hk : k = p.1
      · subst hk
        rw [beq_self_eq_true]
        refine ⟨fun h => ?_, fun h => .inl (Prod.ext rfl (Option.some.inj h).symm)⟩
        rcases h with hpair | hmem
        · rw [← hpair]
        · exact absurd rfl (hp (p.1, v) hmem)
      · rw [beq_eq_false_iff_ne.mpr hk]
        refine ⟨fun h => ?_, fun h => .inr ((ih hrest).mpr h)⟩
        rcases h with rfl | hmem
        · exact absurd rfl hk
        · exact (ih hrest).mp hmem

/-- The order of the pairs does not count. -/
theorem perm_iff_lookup (h : Distinct pairs) (h' : Distinct more) :
    pairs.Perm more ↔ ∀ k, pairs.lookup k = more.lookup k := by
  constructor
  · intro hp k
    refine Option.ext fun v => ?_
    rw [← mem_iff_lookup h, ← mem_iff_lookup h', hp.mem_iff]
  · intro hlookup
    refine (List.perm_ext_iff_of_nodup (.of_map _ h) (.of_map _ h')).mpr fun p => ?_
    rw [mem_iff_lookup (k := p.1) (v := p.2) h, mem_iff_lookup (k := p.1) (v := p.2) h', hlookup]

theorem mem_keys_iff : k ∈ pairs.map (·.1) ↔ (pairs.lookup k).isSome = true := by
  induction pairs with
  | nil => simp
  | cons p rest ih =>
      rw [List.map_cons, List.mem_cons, ih, List.lookup_cons]
      by_cases hk : k = p.1
      · simp [hk]
      · simp [hk, beq_eq_false_iff_ne.mpr hk]

/-- Pairs with the same keys are as many. -/
theorem length_eq_of_keys (h : Distinct pairs) (h' : Distinct more)
    (hkeys : ∀ k, (pairs.lookup k).isSome = (more.lookup k).isSome) : pairs.length = more.length := by
  have hperm : (pairs.map (·.1)).Perm (more.map (·.1)) :=
    (List.perm_ext_iff_of_nodup h h').mpr fun k => by rw [mem_keys_iff, mem_keys_iff, hkeys]
  simpa only [List.length_map] using hperm.length_eq

/-! ## Putting -/

theorem lookup_put : (put key value pairs).lookup k = if k = key then some value else pairs.lookup k := by
  induction pairs with
  | nil =>
      rw [put, List.lookup_cons]
      by_cases hk : k = key
      · simp [hk]
      · simp [hk, beq_eq_false_iff_ne.mpr hk]
  | cons p rest ih =>
      rw [put]
      split
      · rename_i hp
        rw [List.lookup_cons, List.lookup_cons, hp]
        by_cases hk : k = key
        · simp [hk]
        · simp [hk, beq_eq_false_iff_ne.mpr hk]
      · rename_i hp
        rw [List.lookup_cons, ih, List.lookup_cons]
        by_cases hk : k = key
        · subst hk
          simp [beq_eq_false_iff_ne.mpr (Ne.symm hp)]
        · simp only [if_neg hk]

theorem mem_put {p : String × α} (h : p ∈ put key value pairs) : p = (key, value) ∨ p ∈ pairs := by
  induction pairs with
  | nil =>
      cases List.mem_singleton.mp h
      exact .inl rfl
  | cons q rest ih =>
      rw [put] at h
      split at h
      · rename_i hq
        rcases List.mem_cons.mp h with rfl | h
        · exact .inl (by rw [hq])
        · exact .inr (List.mem_cons_of_mem _ h)
      · rcases List.mem_cons.mp h with rfl | h
        · exact .inr List.mem_cons_self
        · exact (ih h).imp_right (List.mem_cons_of_mem _)

theorem Distinct.put (h : Distinct pairs) : Distinct (put key value pairs) := by
  induction pairs with
  | nil => exact distinct_cons.mpr ⟨fun q hq => absurd hq List.not_mem_nil, h⟩
  | cons p rest ih =>
      obtain ⟨hp, hrest⟩ := distinct_cons.mp h
      rw [Pairs.put]
      split
      · exact distinct_cons.mpr ⟨hp, hrest⟩
      · rename_i hkey
        refine distinct_cons.mpr ⟨fun q hq => ?_, ih hrest⟩
        rcases mem_put hq with rfl | hq
        · exact fun h => hkey h.symm
        · exact hp q hq

theorem Distinct.putAll (h : Distinct pairs) (more : List (String × α)) : Distinct (putAll pairs more) := by
  induction more generalizing pairs with
  | nil => exact h
  | cons p rest ih => exact ih h.put

theorem putAll_append (pairs more more' : List (String × α)) :
    putAll pairs (more ++ more') = putAll (putAll pairs more) more' := List.foldl_append

/-- The last value put under a key is the one found. -/
theorem lookup_putAll_reverse : (putAll pairs more).lookup k = (more.reverse.lookup k).or (pairs.lookup k) := by
  induction more generalizing pairs with
  | nil => rfl
  | cons p rest ih =>
      have hput : Pairs.putAll pairs (p :: rest) = Pairs.putAll (Pairs.put p.1 p.2 pairs) rest := rfl
      rw [hput, ih, List.reverse_cons, List.lookup_append, Option.or_assoc, lookup_put, List.lookup_cons]
      by_cases hk : k = p.1
      · simp [hk]
      · simp [hk, beq_eq_false_iff_ne.mpr hk]

theorem lookup_putAll (h : Distinct more) :
    (putAll pairs more).lookup k = (more.lookup k).or (pairs.lookup k) := by
  have hreverse := more.reverse_perm.symm
  rw [lookup_putAll_reverse, (perm_iff_lookup h (h.perm hreverse)).mp hreverse]

theorem putAll_perm {more' : List (String × α)} (h : Distinct pairs) (hmore : Distinct more)
    (hp : more.Perm more') : (putAll pairs more).Perm (putAll pairs more') := by
  have hmore' := hmore.perm hp
  refine (perm_iff_lookup (h.putAll more) (h.putAll more')).mpr fun k => ?_
  rw [lookup_putAll hmore, lookup_putAll hmore', (perm_iff_lookup hmore hmore').mp hp]

end Introspect.Pairs
