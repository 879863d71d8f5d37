import Introspect.Proofs.Pairs
import Introspect.Proofs.Reflect.Outline
/-!
Worlds that differ in the order of entries. Mappings hold their entries and objects their attributes in the
order in which they were put there; all else of two such worlds is the same.
-/
namespace Introspect

/-- The same content up to the order of entries. -/
def Body.Reorders : Body → Body → Prop
  | .mapping entries, .mapping entries' => entries.Perm entries'
  | b, b' => b = b'

/-- The same object up to the order of entries and attributes. -/
structure Cell.Reorders (c c' : Cell) : Prop where
  cls : c'.cls = c.cls
  body : c.body.Reorders c'.body
  slots : c'.slots = c.slots
  attributes : Option.Rel List.Perm c.attributes c'.attributes

namespace Body.Reorders

variable {b b' : Body} {entries : List (Ref × Ref)}

theorem refl (b : Body) : b.Reorders b := by
  cases b <;> first | exact List.Perm.refl _ | rfl

theorem eq_of_ne (h : b.Reorders b') (hm : ∀ entries, b ≠ .mapping entries) : b' = b := by
  cases b <;> first | exact absurd rfl (hm _) | exact (show _ = _ from h).symm

theorem exists_perm (h : (Body.mapping entries).Reorders b') :
    ∃ entries', b' = .mapping entries' ∧ entries.Perm entries' := by
  cases b' with
  | mapping entries' => exact ⟨entries', rfl, h⟩
  | _ => cases h

theorem symm (h : b.Reorders b') : b'.Reorders b := by
  cases b with
  | mapping entries =>
      obtain ⟨entries', rfl, hp⟩ := h.exists_perm
      exact hp.symm
  | _ =>
      rw [h.eq_of_ne (by simp)]
      exact .refl _

theorem outline (h : b.Reorders b') : b.SameOutline b' := by
  cases b with
  | mapping entries =>
      obtain ⟨entries', rfl, -⟩ := h.exists_perm
      exact .mapping entries entries'
  | _ =>
      rw [h.eq_of_ne (by simp)]
      exact .same _

end Body.Reorders

theorem Cell.Reorders.refl (c : Cell) : c.Reorders c where
  cls := rfl
  body := .refl c.body
  slots := rfl
  attributes := optionRel_refl List.Perm.refl

theorem Cell.Reorders.symm {c c' : Cell} (h : c.Reorders c') : c'.Reorders c where
  cls := h.cls.symm
  body := h.body.symm
  slots := h.slots.symm
  attributes := optionRel_symm List.Perm.symm h.attributes

theorem Cell.Reorders.outline {c c' : Cell} (h : c.Reorders c') : c.SameOutline c' := ⟨h.cls, h.body.outline, h.slots⟩

namespace World

structure Reorders (w v : World) : Prop where
  rest : v = { w with cells := v.cells }
  cells (i : Nat) : Option.Rel Cell.Reorders w.cells[i]? v.cells[i]?

namespace Reorders

variable {w v : World} {r c : Ref}

theorem refl (w : World) : w.Reorders w := ⟨rfl, fun _ => optionRel_refl Cell.Reorders.refl⟩

theorem symm (h : w.Reorders v) : v.Reorders w :=
  ⟨by rw [h.rest], fun i => optionRel_symm Cell.Reorders.symm (h.cells i)⟩

theorem outline (h : w.Reorders v) : w.SameOutline v :=
  ⟨h.rest, fun i => optionRel_mono Cell.Reorders.outline (h.cells i)⟩

theorem body (h : w.Reorders v) (r : Ref) : (w.body r).Reorders (v.body r) := by
  cases r with
  | cell i =>
      rcases optionRel_cases (h.cells i) with ⟨hw, hv⟩ | ⟨c, c', hw, hv, hc⟩
      · simp only [World.body, hw, hv]
        exact .refl _
      · simp only [World.body, hw, hv, Option.elim_some]
        exact hc.body
  | entry c key =>
      simp only [World.body, info_congr h.outline.classes]
      exact .refl _
  | _ => exact .refl _

theorem body_eq (h : w.Reorders v) (hm : ∀ entries, w.body r ≠ .mapping entries) : v.body r = w.body r :=
  (h.body r).eq_of_ne hm

theorem body_mapping (h : w.Reorders v) {entries : List (Ref × Ref)} (hb : w.body r = .mapping entries) :
    ∃ entries', v.body r = .mapping entries' ∧ entries.Perm entries' :=
  Body.Reorders.exists_perm (hb ▸ h.body r)

theorem dictionary_perm (h : w.Reorders v) (ho : w.isObject r = true) :
    ((w.dictionary? r).getD []).Perm ((v.dictionary? r).getD []) := by
  cases r with
  | cell i =>
      rcases optionRel_cases (h.cells i) with ⟨hw, hv⟩ | ⟨c, c', hw, hv, hc⟩
      · simp [World.dictionary?, hw, hv]
      · have hbody : c'.body = c.body := by
          refine hc.body.eq_of_ne fun entries hb => ?_
          simp only [World.isObject, World.body, hw, Option.elim_some, hb] at ho
          cases ho
        have hattributes : (c.attributes.getD []).Perm (c'.attributes.getD []) := by
          rcases optionRel_cases hc.attributes with ⟨ha, ha'⟩ | ⟨as, as', ha, ha', hp⟩
          · rw [ha, ha']
          · rw [ha, ha']
            exact hp
        simp only [World.dictionary?, hw, hv, hbody, hc.cls, isSubclass_congr h.outline.classes]
        split <;> try split
        all_goals first
          | exact hattributes.append_left _
          | exact hattributes
  | descriptor id => simp only [World.dictionary?, h.outline.registry]; exact .refl _
  | routine f => cases f <;> exact .refl _
  | _ => exact .refl _

end Reorders

/-! ## Fields -/

theorem nodup_slotNames (w : World) (c : ClassId) : (w.slotNames c).Nodup := by
  have hnames : ∀ (more names : List String), names.Nodup →
      (more.foldl (fun names name =>
        if name = "__dict__" ∨ name = "__weakref__" ∨ names.contains name then names
        else names ++ [name]) names).Nodup := by
    intro more
    induction more with
    | nil => exact fun names h => h
    | cons name rest ih =>
        intro names h
        refine ih _ ?_
        dsimp only
        split
        · exact h
        · rename_i hnew
          simp only [not_or, List.contains_iff_mem] at hnew
          rw [List.nodup_append]
          refine ⟨h, List.nodup_singleton name, fun a ha b hb => ?_⟩
          rw [List.mem_singleton.mp hb]
          exact fun heq => hnew.2.2 (heq ▸ ha)
  have hall : ∀ (cs : List ClassId) (names : List String), names.Nodup →
      (cs.foldl (fun names c => ((w.info c).slots.getD []).foldl (fun names name =>
        if name = "__dict__" ∨ name = "__weakref__" ∨ names.contains name then names
        else names ++ [name]) names) names).Nodup := by
    intro cs
    induction cs with
    | nil => exact fun names h => h
    | cons c rest ih => exact fun names h => ih _ (hnames _ _ h)
  exact hall _ [] List.nodup_nil

theorem distinct_foundAmong (value? : String → Option Ref) {names : List String} (h : names.Nodup) :
    Pairs.Distinct (foundAmong value? names) := by
  have hsub : ((foundAmong value? names).map (·.1)).Sublist names := by
    clear h
    induction names with
    | nil => exact .slnil
    | cons name rest ih =>
        rw [foundAmong, List.filterMap_cons]
        cases value? name with
        | none => exact ih.cons name
        | some value => exact ih.cons_cons name
  exact h.sublist hsub

theorem distinct_filledSlots (w : World) (r : Ref) {names : List String} (h : names.Nodup) :
    Pairs.Distinct (w.filledSlots r names) := distinct_foundAmong (w.slotValue? r) h

theorem distinct_storedFields (w : World) (r : Ref) : Pairs.Distinct (w.storedFields r) :=
  (distinct_filledSlots w r (w.nodup_slotNames _)).putAll _

theorem sublist_of_slotFields {r : Ref} {names : List String} {v u : World} {found : List (String × Ref)}
    (h : slotFields r names v = .ok found u) : (found.map (·.1)).Sublist names := by
  induction names generalizing v found with
  | nil => cases h; exact .slnil
  | cons name rest ih =>
      obtain ⟨value?, v₁, -, h⟩ := run_bind h
      cases value? with
      | none => exact (ih h).cons name
      | some value =>
          obtain ⟨others, v₂, hrest, h⟩ := run_bind h
          cases h
          exact (ih hrest).cons_cons name

/-- An object has at most one field of each name, however its slots are read. -/
theorem distinct_of_fields {w : World} {r : Ref} {pairs : List (String × Ref)}
    (h : w.Settles (fields r) (.ok pairs)) : Pairs.Distinct pairs := by
  obtain ⟨n, u, hrun⟩ := h.exists_run
  obtain ⟨v, v₁, hget, hrun⟩ := run_bind hrun
  cases hget
  obtain ⟨slots, v₂, hslots, hrun⟩ := run_bind hrun
  obtain ⟨v₃, v₄, hget, hrun⟩ := run_bind hrun
  cases hget
  cases hrun
  have hdistinct : Pairs.Distinct slots := ((w.limited n).nodup_slotNames _).sublist (sublist_of_slotFields hslots)
  exact hdistinct.putAll _

namespace Reorders

variable {w v : World} {r c : Ref}

theorem slotValue? (h : w.Reorders v) (ho : w.isObject r = true)
    (hd : Pairs.Distinct ((w.dictionary? r).getD [])) (name : String) :
    v.slotValue? r name = w.slotValue? r name := by
  have hperm := h.dictionary_perm ho
  have hlookup := (Pairs.perm_iff_lookup hd (hd.perm hperm)).mp hperm name
  simp only [World.slotValue?, h.outline.classOf, entryOf?_congr h.outline.classes, h.outline.slot?, hlookup]

/-- The fields of an object are the same up to their order. -/
theorem storedFields_perm (h : w.Reorders v) (ho : w.isObject r = true)
    (hd : Pairs.Distinct ((w.dictionary? r).getD [])) : (w.storedFields r).Perm (v.storedFields r) := by
  have hslots : v.filledSlots r (v.slotNames (v.classOf r)) = w.filledSlots r (w.slotNames (w.classOf r)) := by
    simp only [filledSlots, h.outline.classOf, slotNames_congr h.outline.classes, h.slotValue? ho hd]
  rw [World.storedFields, World.storedFields, hslots]
  exact Pairs.putAll_perm (distinct_filledSlots w r (w.nodup_slotNames _)) hd (h.dictionary_perm ho)

end Reorders

end World

end Introspect
