import Introspect.Registry.Find
import Introspect.Reflect.Shape
import Introspect.Reflect.Overload
/-!
Worlds that grow. Programs add objects to a world and register classes in it; what was there stays,
so that every view of an object that a world has answers the same later on.
-/
namespace Introspect

namespace Registry

/-- Every class that is registered leads to the descriptor that was made for it. -/
def Sound (r : Registry) : Prop :=
  ∀ c id, r.byClass.lookup c = some id → ∃ d, r.descriptor? id = some d ∧ d.cls = c

theorem sound_empty : Sound empty := by intro c id h; simp [empty] at h

theorem descriptor?_register_of_some {r : Registry} {c : ClassId} {qname name : String} {id : Nat}
    {d : Descriptor} (h : r.descriptor? id = some d) :
    (r.register c qname name).1.descriptor? id = some d := by
  unfold register
  split
  · exact h
  · simp only [descriptor?] at h ⊢
    rw [Array.getElem?_push]
    split
    · rename_i he; subst he; simp at h
    · exact h

theorem lookup_register_of_some {r : Registry} {c c' : ClassId} {qname name : String} {id : Nat}
    (h : r.byClass.lookup c' = some id) :
    (r.register c qname name).1.byClass.lookup c' = some id := by
  unfold register
  split
  · exact h
  · rename_i hc
    simp only [List.lookup_cons]
    split
    · rename_i he; rw [beq_iff_eq] at he; subst he; rw [hc] at h; cases h
    · exact h

theorem descriptor?_register {r : Registry} (hr : r.Sound) (c : ClassId) (qname name : String) :
    ∃ d, (r.register c qname name).1.descriptor? (r.register c qname name).2 = some d ∧ d.cls = c := by
  unfold register
  split
  · rename_i id h; exact hr c id h
  · exact ⟨⟨c, qname, name⟩, by simp [descriptor?], rfl⟩

theorem lookup_register {r : Registry} (c : ClassId) (qname name : String) :
    (r.register c qname name).1.byClass.lookup c = some (r.register c qname name).2 := by
  unfold register
  split
  · assumption
  · simp

theorem Sound.register {r : Registry} (hr : r.Sound) (c : ClassId) (qname name : String) :
    (r.register c qname name).1.Sound := by
  intro c' id h
  by_cases hc : c' = c
  · subst hc
    rw [lookup_register] at h
    cases h
    exact descriptor?_register hr c' qname name
  · have hold : r.byClass.lookup c' = some id := by
      unfold Registry.register at h
      split at h
      · exact h
      · simpa only [List.lookup_cons, beq_false_of_ne hc] using h
    obtain ⟨d, hd, hcls⟩ := hr c' id hold
    exact ⟨d, descriptor?_register_of_some hd, hcls⟩

end Registry

namespace World

/-- The world under another limit of nesting. -/
def limited (w : World) (n : Nat) : World := { w with nesting := n }

/-- The second world is the first with new objects and newly registered classes in it, under any
limit. -/
inductive Grows : World → World → Prop where
  | refl (w : World) : Grows w w
  | limit {w v : World} (n : Nat) : Grows w v → Grows w (v.limited n)
  | alloc {w v : World} (cell : Cell) : Grows w v → Grows w { v with cells := v.cells.push cell }
  | register {w v : World} (c : ClassId) : Grows w v →
      Grows w { v with registry := (v.registry.register c (v.info c).fullName (v.info c).name).1 }

/-- A run may lead from the first world to the second. -/
structure Leads (w v : World) : Prop where
  grows : w.Grows v
  nesting : v.nesting = w.nesting

/-- The world holds what a reference refers to. -/
def Has (w : World) : Ref → Prop
  | .cell i => i < w.cells.size
  | .descriptor id => (w.registry.descriptor? id).isSome
  | _ => True

/-! ## Views of the classes -/

section Classes

variable {w v : World}

theorem info_congr (h : v.classes = w.classes) (c : ClassId) : v.info c = w.info c := by
  cases c with
  | native n => rfl
  | declared i => simp only [info, h]

theorem ancestry_congr (h : v.classes = w.classes) (c : ClassId) : v.ancestry c = w.ancestry c := by
  simp only [ancestry, info_congr h]

theorem isSubclass_congr (h : v.classes = w.classes) (c parent : ClassId) :
    v.isSubclass c parent = w.isSubclass c parent := by
  simp only [isSubclass, ancestry_congr h]

theorem mem_of_entryAmong? {name : String} {cs : List ClassId} {found : ClassId × Entry}
    (h : w.entryAmong? name cs = some found) :
    found.1 ∈ cs ∧ (w.info found.1).entryOf? name = some found.2 := by
  induction cs with
  | nil => cases h
  | cons a rest ih =>
      rw [entryAmong?] at h
      cases he : (w.info a).entryOf? name with
      | some e =>
          rw [he] at h
          cases h
          exact ⟨List.mem_cons_self, he⟩
      | none =>
          rw [he] at h
          obtain ⟨hmem, hentry⟩ := ih h
          exact ⟨List.mem_cons_of_mem _ hmem, hentry⟩

theorem exists_entryAmong? {name : String} {cs : List ClassId} {a : ClassId} {e : Entry} (ha : a ∈ cs)
    (he : (w.info a).entryOf? name = some e) : ∃ found, w.entryAmong? name cs = some found := by
  induction cs with
  | nil => cases ha
  | cons b rest ih =>
      rw [entryAmong?]
      cases hb : (w.info b).entryOf? name with
      | some e' => exact ⟨_, rfl⟩
      | none =>
          rcases List.mem_cons.mp ha with rfl | ha
          · rw [he] at hb
            cases hb
          · exact ih ha

theorem entryAmong?_congr (h : v.classes = w.classes) (key : String) (cs : List ClassId) :
    v.entryAmong? key cs = w.entryAmong? key cs := by
  induction cs with
  | nil => rfl
  | cons c rest ih => simp only [entryAmong?, info_congr h, ih]

theorem entryOf?_congr (h : v.classes = w.classes) (c : ClassId) (key : String) :
    v.entryOf? c key = w.entryOf? c key := by
  simp only [entryOf?, ancestry_congr h, entryAmong?_congr h]

theorem overloads_congr (h : v.classes = w.classes) (c : ClassId) : v.overloads c = w.overloads c := by
  simp only [overloads, ancestry_congr h, info_congr h]

theorem slotNames_congr (h : v.classes = w.classes) (c : ClassId) : v.slotNames c = w.slotNames c := by
  simp only [slotNames, ancestry_congr h, info_congr h]

/-- What stands in a class holds nothing itself. -/
theorem body_entry (w : World) (c : ClassId) (key : String) :
    w.body (.entry c key) = .methodWrapper ∨ w.body (.entry c key) = .nothing := by
  change entryBody _ = _ ∨ entryBody _ = _
  unfold entryBody
  split
  · exact .inl rfl
  · exact .inl rfl
  · exact .inr rfl

end Classes

namespace Grows

variable {w v u : World}

theorem trans (h : w.Grows v) (h' : v.Grows u) : w.Grows u := by
  induction h' with
  | refl => exact h
  | limit n _ ih => exact .limit n ih
  | alloc cell _ ih => exact .alloc cell ih
  | register c _ ih => exact .register c ih

/-- All but the objects, the registry and the limit is as before. -/
theorem rest (h : w.Grows v) :
    v = { w with cells := v.cells, registry := v.registry, nesting := v.nesting } := by
  induction h with
  | refl => rfl
  | limit n _ ih => rw [ih]; rfl
  | alloc cell _ ih => rw [ih]
  | register c _ ih => rw [ih]

theorem classes (h : w.Grows v) : v.classes = w.classes := by rw [h.rest]

theorem info (h : w.Grows v) (c : ClassId) : v.info c = w.info c := info_congr h.classes c

theorem isSubclass (h : w.Grows v) (c parent : ClassId) :
    v.isSubclass c parent = w.isSubclass c parent := isSubclass_congr h.classes c parent

theorem isAlive (h : w.Grows v) (c : ClassId) : v.isAlive c = w.isAlive c := by
  have hd : v.dropped = w.dropped := by rw [h.rest]
  simp only [World.isAlive, h.isSubclass, hd, h.classes]

theorem entryOf? (h : w.Grows v) (c : ClassId) (key : String) :
    v.entryOf? c key = w.entryOf? c key := entryOf?_congr h.classes c key

theorem overloads (h : w.Grows v) (c : ClassId) : v.overloads c = w.overloads c :=
  overloads_congr h.classes c

theorem slotNames (h : w.Grows v) (c : ClassId) : v.slotNames c = w.slotNames c :=
  slotNames_congr h.classes c

theorem size_le (h : w.Grows v) : w.cells.size ≤ v.cells.size := by
  induction h with
  | refl => exact Nat.le_refl _
  | limit n _ ih => exact ih
  | alloc cell _ ih => simp only [Array.size_push]; omega
  | register c _ ih => exact ih

theorem cells (h : w.Grows v) {i : Nat} (hi : i < w.cells.size) : v.cells[i]? = w.cells[i]? := by
  induction h with
  | refl => rfl
  | limit n _ ih => exact ih
  | alloc cell h ih =>
      have hlt := Nat.lt_of_lt_of_le hi h.size_le
      rw [Array.getElem?_push, if_neg (Nat.ne_of_lt hlt), ih]
  | register c _ ih => exact ih

theorem descriptor? (h : w.Grows v) {id : Nat} {d : Descriptor}
    (hd : w.registry.descriptor? id = some d) : v.registry.descriptor? id = some d := by
  induction h with
  | refl => exact hd
  | limit n _ ih => exact ih
  | alloc cell _ ih => exact ih
  | register c _ ih => exact Registry.descriptor?_register_of_some ih

theorem sound (h : w.Grows v) (hw : w.registry.Sound) : v.registry.Sound := by
  induction h with
  | refl => exact hw
  | limit n _ ih => exact ih
  | alloc cell _ ih => exact ih
  | register c _ ih => exact ih.register _ _ _

theorem has (h : w.Grows v) {r : Ref} (hr : w.Has r) : v.Has r := by
  cases r with
  | cell i => exact Nat.lt_of_lt_of_le hr h.size_le
  | descriptor id =>
      obtain ⟨d, hd⟩ := Option.isSome_iff_exists.mp hr
      exact Option.isSome_iff_exists.mpr ⟨d, h.descriptor? hd⟩
  | _ => trivial

theorem classOf (h : w.Grows v) {r : Ref} (hr : w.Has r) : v.classOf r = w.classOf r := by
  cases r with
  | cell i => simp only [World.classOf, h.cells hr]
  | entry c key => simp only [World.classOf, h.info]
  | _ => rfl

theorem body (h : w.Grows v) {r : Ref} (hr : w.Has r) : v.body r = w.body r := by
  cases r with
  | cell i => simp only [World.body, h.cells hr]
  | entry c key => simp only [World.body, h.info]
  | _ => rfl

theorem atom? (h : w.Grows v) {r : Ref} (hr : w.Has r) : v.atom? r = w.atom? r := by
  simp only [World.atom?, h.body hr]

theorem isPlain (h : w.Grows v) {r : Ref} (hr : w.Has r) : v.isPlain r = w.isPlain r := by
  simp only [World.isPlain, h.atom? hr]

theorem isInstance (h : w.Grows v) {r : Ref} (hr : w.Has r) (n : Native) :
    v.isInstance r n = w.isInstance r n := by
  simp only [World.isInstance, h.classOf hr, h.isSubclass]

theorem items? (h : w.Grows v) {r : Ref} (hr : w.Has r) : v.items? r = w.items? r := by
  simp only [World.items?, h.body hr]

theorem dictionary? (h : w.Grows v) {r : Ref} (hr : w.Has r) :
    v.dictionary? r = w.dictionary? r := by
  cases r with
  | cell i => simp only [World.dictionary?, h.cells hr, h.isSubclass]
  | descriptor id =>
      obtain ⟨d, hd⟩ := Option.isSome_iff_exists.mp hr
      simp only [World.dictionary?, hd, h.descriptor? hd]
  | routine r => cases r <;> rfl
  | _ => rfl

theorem slot? (h : w.Grows v) {r : Ref} (hr : w.Has r) (owner : ClassId) (name : String) :
    v.slot? r owner name = w.slot? r owner name := by
  cases r with
  | cell i => simp only [World.slot?, h.cells hr]
  | _ => rfl

theorem refType? (h : w.Grows v) {r : Ref} (hr : w.Has r) : v.refType? r = w.refType? r := by
  simp only [World.refType?, World.objectType, h.body hr, h.dictionary? hr, h.slotNames,
    h.classOf hr]

end Grows

theorem grows_limited (w : World) (n : Nat) : w.Grows (w.limited n) := .limit n (.refl w)

namespace Leads

variable {w v u : World}

theorem refl (w : World) : w.Leads w := ⟨.refl w, rfl⟩

theorem trans (h : w.Leads v) (h' : v.Leads u) : w.Leads u :=
  ⟨h.grows.trans h'.grows, h'.nesting.trans h.nesting⟩

theorem alloc (w : World) (cell : Cell) : w.Leads { w with cells := w.cells.push cell } :=
  ⟨.alloc cell (.refl w), rfl⟩

theorem register (w : World) (c : ClassId) :
    w.Leads { w with registry := (w.registry.register c (w.info c).fullName (w.info c).name).1 } :=
  ⟨.register c (.refl w), rfl⟩

/-- What a run leads to under another limit has grown from the world itself. -/
theorem ofLimited {n : Nat} (h : (w.limited n).Leads v) : w.Grows v :=
  (w.grows_limited n).trans h.grows

end Leads

end World

end Introspect
