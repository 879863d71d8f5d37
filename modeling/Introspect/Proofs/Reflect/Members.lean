import Introspect.Proofs.Reflect.Outline
/-!
Worlds that differ in the order of members. A set or a view of keys holds its members in no order of its own;
all else of two such worlds is the same.
-/
namespace Introspect

/-- The same content up to the order of members. -/
def Body.Rearranges : Body → Body → Prop
  | .members items, .members items' => items.Perm items'
  | b, b' => b = b'

/-- The same object up to the order of its members. -/
structure Cell.Rearranges (c c' : Cell) : Prop where
  rest : c' = { c with body := c'.body }
  body : c.body.Rearranges c'.body

namespace Body.Rearranges

variable {b b' : Body} {items : List Ref}

theorem refl (b : Body) : b.Rearranges b := by
  cases b <;> first | exact List.Perm.refl _ | rfl

theorem eq_of_ne (h : b.Rearranges b') (hm : ∀ items, b ≠ .members items) : b' = b := by
  cases b <;> first | exact absurd rfl (hm _) | exact (show _ = _ from h).symm

theorem exists_perm (h : (Body.members items).Rearranges b') : ∃ items', b' = .members items' ∧ items.Perm items' := by
  cases b' with
  | members items' => exact ⟨items', rfl, h⟩
  | _ => cases h

theorem symm (h : b.Rearranges b') : b'.Rearranges b := by
  cases b with
  | members items =>
      obtain ⟨items', rfl, hp⟩ := h.exists_perm
      exact hp.symm
  | _ =>
      rw [h.eq_of_ne (by simp)]
      exact .refl _

theorem trans {b'' : Body} (h : b.Rearranges b') (h' : b'.Rearranges b'') : b.Rearranges b'' := by
  cases b with
  | members items =>
      obtain ⟨items', rfl, hp⟩ := h.exists_perm
      obtain ⟨items'', rfl, hp'⟩ := h'.exists_perm
      exact hp.trans hp'
  | _ =>
      rw [h.eq_of_ne (by simp)] at h'
      exact h'

theorem outline (h : b.Rearranges b') : b.SameOutline b' := by
  cases b with
  | members items =>
      obtain ⟨items', rfl, -⟩ := h.exists_perm
      exact .members items items'
  | _ =>
      rw [h.eq_of_ne (by simp)]
      exact .same _

end Body.Rearranges

theorem Cell.Rearranges.refl (c : Cell) : c.Rearranges c := ⟨rfl, .refl c.body⟩

theorem Cell.Rearranges.symm {c c' : Cell} (h : c.Rearranges c') : c'.Rearranges c := ⟨by rw [h.rest], h.body.symm⟩

theorem Cell.Rearranges.trans {c c' c'' : Cell} (h : c.Rearranges c') (h' : c'.Rearranges c'') : c.Rearranges c'' :=
  ⟨by rw [h'.rest, h.rest], h.body.trans h'.body⟩

theorem Cell.Rearranges.outline {c c' : Cell} (h : c.Rearranges c') : c.SameOutline c' where
  cls := by rw [h.rest]
  body := h.body.outline
  slots := by rw [h.rest]

namespace World

structure Rearranges (w v : World) : Prop where
  rest : v = { w with cells := v.cells }
  cells (i : Nat) : Option.Rel Cell.Rearranges w.cells[i]? v.cells[i]?

namespace Rearranges

variable {w v : World} {r c : Ref}

theorem refl (w : World) : w.Rearranges w := ⟨rfl, fun _ => optionRel_refl Cell.Rearranges.refl⟩

theorem symm (h : w.Rearranges v) : v.Rearranges w :=
  ⟨by rw [h.rest], fun i => optionRel_symm Cell.Rearranges.symm (h.cells i)⟩

theorem trans {u : World} (h : w.Rearranges v) (h' : v.Rearranges u) : w.Rearranges u :=
  ⟨by rw [h'.rest, h.rest], fun i => optionRel_trans Cell.Rearranges.trans (h.cells i) (h'.cells i)⟩

theorem outline (h : w.Rearranges v) : w.SameOutline v :=
  ⟨h.rest, fun i => optionRel_mono Cell.Rearranges.outline (h.cells i)⟩

theorem body (h : w.Rearranges v) (r : Ref) : (w.body r).Rearranges (v.body r) := by
  cases r with
  | cell i =>
      rcases optionRel_cases (h.cells i) with ⟨hw, hv⟩ | ⟨c, c', hw, hv, hc⟩
      · simp only [World.body, hw, hv]
        exact .refl _
      · simp only [World.body, hw, hv, Option.elim_some]
        exact hc.body
  | entry c key =>
      simp only [World.body, info_congr h.outline.classes]
      exact .refl _
  | _ => exact .refl _

theorem body_eq (h : w.Rearranges v) (hm : ∀ items, w.body r ≠ .members items) : v.body r = w.body r :=
  (h.body r).eq_of_ne hm

theorem body_members (h : w.Rearranges v) {items : List Ref} (hb : w.body r = .members items) :
    ∃ items', v.body r = .members items' ∧ items.Perm items' :=
  Body.Rearranges.exists_perm (hb ▸ h.body r)

theorem dictionary? (h : w.Rearranges v) (ho : w.isObject r = true) : v.dictionary? r = w.dictionary? r := by
  cases r with
  | cell i =>
      rcases optionRel_cases (h.cells i) with ⟨hw, hv⟩ | ⟨c, c', hw, hv, hc⟩
      · simp only [World.dictionary?, hw, hv]
      · have hbody : c'.body = c.body := by
          refine hc.body.eq_of_ne fun items hb => ?_
          simp only [World.isObject, World.body, hw, Option.elim_some, hb] at ho
          cases ho
        have hsame : c' = c := by rw [hc.rest, hbody]
        simp only [World.dictionary?, hw, hv, hsame, isSubclass_congr h.outline.classes]
  | descriptor id => simp only [World.dictionary?, h.outline.registry]
  | routine f => cases f <;> rfl
  | _ => rfl

theorem storedFields (h : w.Rearranges v) (ho : w.isObject r = true) : v.storedFields r = w.storedFields r := by
  have hvalue (name : String) : v.slotValue? r name = w.slotValue? r name := by
    simp only [World.slotValue?, h.outline.classOf, entryOf?_congr h.outline.classes, h.outline.slot?, h.dictionary? ho]
  simp only [World.storedFields, filledSlots, hvalue, h.outline.classOf, slotNames_congr h.outline.classes,
    h.dictionary? ho]

end Rearranges

end World

end Introspect
