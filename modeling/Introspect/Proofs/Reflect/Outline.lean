import Introspect.Proofs.Reflect.Storage
/-!
Worlds of one outline. At every place they hold objects of the same class with the same slots and the same kind of
content, and only attributes, entries of mappings and members of sets may be others.
-/
namespace Introspect

section Options

variable {α : Type} {R R' : α → α → Prop} {x y : Option α}

theorem optionRel_cases (h : Option.Rel R x y) : (x = none ∧ y = none) ∨ ∃ a b, x = some a ∧ y = some b ∧ R a b := by
  cases h with
  | none => exact .inl ⟨rfl, rfl⟩
  | some hab => exact .inr ⟨_, _, rfl, rfl, hab⟩

theorem optionRel_refl (hR : ∀ a, R a a) : Option.Rel R x x := by
  cases x with
  | none => exact .none
  | some a => exact .some (hR a)

theorem optionRel_symm (hR : ∀ {a b}, R a b → R' b a) (h : Option.Rel R x y) : Option.Rel R' y x := by
  cases h with
  | none => exact .none
  | some hab => exact .some (hR hab)

theorem optionRel_trans {z : Option α} (hR : ∀ {a b c}, R a b → R b c → R a c) (h : Option.Rel R x y)
    (h' : Option.Rel R y z) : Option.Rel R x z := by
  cases h with
  | none => exact h'
  | some hab =>
      cases h' with
      | some hbc => exact .some (hR hab hbc)

theorem optionRel_mono (hR : ∀ {a b}, R a b → R' a b) (h : Option.Rel R x y) : Option.Rel R' x y := by
  cases h with
  | none => exact .none
  | some hab => exact .some (hR hab)

end Options

/-- The same content, or two mappings or two sets. -/
inductive Body.SameOutline : Body → Body → Prop where
  | mapping (entries entries' : List (Ref × Ref)) : SameOutline (.mapping entries) (.mapping entries')
  | members (items items' : List Ref) : SameOutline (.members items) (.members items')
  | same (b : Body) : SameOutline b b

structure Cell.SameOutline (c c' : Cell) : Prop where
  cls : c'.cls = c.cls
  body : c.body.SameOutline c'.body
  slots : c'.slots = c.slots

namespace World

structure SameOutline (w v : World) : Prop where
  rest : v = { w with cells := v.cells }
  cells (i : Nat) : Option.Rel Cell.SameOutline w.cells[i]? v.cells[i]?

namespace SameOutline

variable {w v : World} {r : Ref}

theorem classes (h : w.SameOutline v) : v.classes = w.classes := by rw [h.rest]

theorem registry (h : w.SameOutline v) : v.registry = w.registry := by rw [h.rest]

theorem cell_cases (h : w.SameOutline v) (i : Nat) : (w.cells[i]? = none ∧ v.cells[i]? = none) ∨
    ∃ c c', w.cells[i]? = some c ∧ v.cells[i]? = some c' ∧ c.SameOutline c' :=
  optionRel_cases (h.cells i)

theorem has (h : w.SameOutline v) (hr : w.Has r) : v.Has r := by
  cases r with
  | cell i =>
      rcases h.cell_cases i with ⟨hw, -⟩ | ⟨c, c', -, hv, -⟩
      · exact absurd hr (Nat.not_lt.mpr (Array.getElem?_eq_none_iff.mp hw))
      · exact (Array.getElem?_eq_some_iff.mp hv).1
  | descriptor id => simpa only [Has, h.registry] using hr
  | _ => trivial

theorem classOf (h : w.SameOutline v) (r : Ref) : v.classOf r = w.classOf r := by
  cases r with
  | cell i =>
      rcases h.cell_cases i with ⟨hw, hv⟩ | ⟨c, c', hw, hv, hc⟩
      · simp only [World.classOf, hw, hv]
      · simp only [World.classOf, hw, hv, Option.elim_some, hc.cls]
  | entry c key => simp only [World.classOf, info_congr h.classes]
  | _ => rfl

theorem slot? (h : w.SameOutline v) (r : Ref) (owner : ClassId) (name : String) :
    v.slot? r owner name = w.slot? r owner name := by
  cases r with
  | cell i =>
      rcases h.cell_cases i with ⟨hw, hv⟩ | ⟨c, c', hw, hv, hc⟩
      · simp only [World.slot?, hw, hv]
      · simp only [World.slot?, hw, hv, Option.bind_some, hc.slots]
  | _ => rfl

/-! ## Content -/

theorem body (h : w.SameOutline v) (r : Ref) : (w.body r).SameOutline (v.body r) := by
  cases r with
  | cell i =>
      rcases h.cell_cases i with ⟨hw, hv⟩ | ⟨c, c', hw, hv, hc⟩
      · simp only [World.body, hw, hv]
        exact .same _
      · simp only [World.body, hw, hv, Option.elim_some]
        exact hc.body
  | entry c key =>
      simp only [World.body, info_congr h.classes]
      exact .same _
  | _ => exact .same _

theorem body_cases (h : w.SameOutline v) (r : Ref) : v.body r = w.body r ∨
    (∃ entries entries', w.body r = .mapping entries ∧ v.body r = .mapping entries') ∨
      ∃ items items', w.body r = .members items ∧ v.body r = .members items' := by
  have hbody := h.body r
  generalize w.body r = b at hbody ⊢
  generalize v.body r = b' at hbody ⊢
  cases hbody with
  | mapping entries entries' => exact .inr (.inl ⟨entries, entries', rfl, rfl⟩)
  | members items items' => exact .inr (.inr ⟨items, items', rfl, rfl⟩)
  | same => exact .inl rfl

theorem atom? (h : w.SameOutline v) (r : Ref) : v.atom? r = w.atom? r := by
  rcases h.body_cases r with hb | ⟨_, _, hw, hv⟩ | ⟨_, _, hw, hv⟩
  · simp only [World.atom?, hb]
  · simp only [World.atom?, hw, hv]
  · simp only [World.atom?, hw, hv]

theorem items? (h : w.SameOutline v) (r : Ref) : v.items? r = w.items? r := by
  rcases h.body_cases r with hb | ⟨_, _, hw, hv⟩ | ⟨_, _, hw, hv⟩
  · simp only [World.items?, hb]
  · simp only [World.items?, hw, hv]
  · simp only [World.items?, hw, hv]

theorem isObject (h : w.SameOutline v) (r : Ref) : v.isObject r = w.isObject r := by
  rcases h.body_cases r with hb | ⟨_, _, hw, hv⟩ | ⟨_, _, hw, hv⟩
  · simp only [World.isObject, hb]
  · simp only [World.isObject, hw, hv]
  · simp only [World.isObject, hw, hv]

theorem body_of_object (h : w.SameOutline v) (ho : w.isObject r = true) : v.body r = w.body r := by
  rcases h.body_cases r with hb | ⟨_, _, hw, -⟩ | ⟨_, _, hw, -⟩
  · exact hb
  · simp only [World.isObject, hw] at ho
    cases ho
  · simp only [World.isObject, hw] at ho
    cases ho

theorem storesQuietly (h : w.SameOutline v) (hr : w.StoresQuietly r) : v.StoresQuietly r where
  has := h.has hr.has
  object := (h.isObject r).trans hr.object
  quiet name hn := by
    rw [h.classOf, slotNames_congr h.classes] at hn
    simp only [World.readsQuietly, h.classOf, entryOf?_congr h.classes, h.body_of_object hr.object]
    exact hr.quiet name hn

end SameOutline

end World

end Introspect
