import Introspect.Declaration.Edit
import Introspect.Proofs.Class.Linearization
import Introspect.Proofs.Pairs
import Introspect.Proofs.Results
import Introspect.Proofs.World.Keeping
/-!
Worlds over time. Apart from what programs do, classes are declared, changed, bound, unbound and collected, and the
registry is swept. Each such turn is one constructor of `Turns`; what holds in every world and what a later world still
knows of an earlier one follow from what a single turn keeps.
-/
namespace Introspect

namespace World

/-- A class that is declared, if it is no native one, and that was not dropped. -/
structure Usable (w : World) (c : ClassId) : Prop where
  declared : ∀ i, c = .declared i → i < w.classes.size
  kept : c ∉ w.dropped

/-- What happens to a world, one thing after the other. -/
inductive Turns : World → World → Prop where
  | acts {w v : World} (h : w.Acts v) : Turns w v
  | define (w : World) (f : Function) : Turns w { w with functions := w.functions.push f }
  | declare (w : World) (d : Declaration) (info : ClassInfo) (hbases : ∀ b ∈ d.bases, w.Usable b)
      (h : d.info w (.declared w.classes.size) = .ok info) :
      Turns w { w with classes := w.classes.push info }
  | change (w : World) (i : Nat) (f : ClassInfo → ClassInfo) (h : ∀ info, (f info).ancestry = info.ancestry) :
      Turns w (w.modifyClass i f)
  | store (w : World) (address : Nat) (f : Cell → Cell) : Turns w { w with cells := w.cells.modify address f }
  | rebind (w : World) (modules : List (String × List (String × Ref))) : Turns w { w with modules := modules }
  | identify (w : World) (id : String) (c : ClassId) (h : w.Usable c) :
      Turns w { w with ids := Pairs.put id c w.ids }
  | unbind (w : World) (c : ClassId) : Turns w (w.unbindClass c)
  | collect (w : World) (gone : List ClassId)
      (h : ∀ c ∈ gone, (∃ i < w.classes.size, c = .declared i) ∧ ∀ p ∈ w.ids, p.2 ≠ c) :
      Turns w { w with dropped := gone ++ w.dropped }
  | sweep (w : World) (isHeld : Nat → Bool) :
      Turns w { w with registry := w.registry.sweep w.isAlive isHeld }

abbrev Passes : World → World → Prop := Relation.ReflTransGen Turns

theorem Evolves.passes {w v : World} (h : w.Evolves v) : w.Passes v := h.lift id fun _ _ => .acts

variable {w v u : World} {a b c : ClassId}

/-! ## Ancestries -/

theorem mem_native_ancestry {n : Native} (h : c ∈ w.ancestry (.native n)) : ∃ m, c = .native m := by
  obtain ⟨m, -, rfl⟩ := List.mem_map.mp h
  exact ⟨m, rfl⟩

/-- The classes of an ancestry are declared. -/
def Grounded (w : World) (c : ClassId) : Prop :=
  ∀ j, ClassId.declared j ∈ w.ancestry c → j < w.classes.size

theorem ancestry_undeclared {i : Nat} (hi : w.classes.size ≤ i) :
    w.ancestry (.declared i) = [.native .object] := by
  simp only [ancestry, info, Array.getElem?_eq_none hi, Option.getD_none]
  rfl

theorem native_ancestry_trans (n : Native) :
    n ∈ n.ancestry ∧ ∀ m ∈ n.ancestry, ∀ k ∈ m.ancestry, k ∈ n.ancestry := by
  cases n with
  | error kind => cases kind <;> decide
  | host kind => cases kind <;> decide
  | _ => decide

/-- The ancestry of a class holds the class and the ancestries of all classes in it. -/
def HasLineage (w : World) (c : ClassId) : Prop :=
  c ∈ w.ancestry c ∧ ∀ a ∈ w.ancestry c, ∀ b ∈ w.ancestry a, b ∈ w.ancestry c

theorem hasLineage_native (n : Native) : w.HasLineage (.native n) := by
  obtain ⟨hself, htrans⟩ := native_ancestry_trans n
  refine ⟨List.mem_map_of_mem hself, fun a ha b hb => ?_⟩
  obtain ⟨m, hm, rfl⟩ := List.mem_map.mp ha
  obtain ⟨k, hk, rfl⟩ := List.mem_map.mp hb
  exact List.mem_map_of_mem (htrans m hm k hk)

/-- A class is the first of its own ancestry. -/
def LeadsAncestry (w : World) (c : ClassId) : Prop := ∃ later, w.ancestry c = c :: later

theorem leadsAncestry_native (n : Native) : w.LeadsAncestry (.native n) := by
  cases n with
  | error kind => cases kind <;> exact ⟨_, rfl⟩
  | _ => exact ⟨_, rfl⟩

/-! ## Classes that exist -/

theorem isAlive_iff : w.isAlive c = true ↔
    c ∉ w.dropped ∨ ∃ i < w.classes.size, ClassId.declared i ∉ w.dropped ∧ c ∈ w.ancestry (.declared i) := by
  simp only [isAlive, isSubclass, Bool.or_eq_true, Bool.not_eq_true', List.any_eq_true, List.mem_range,
    Bool.and_eq_true, List.contains_iff_mem, ← Bool.not_eq_true]

theorem isAlive_congr (hd : v.dropped = w.dropped) (hs : v.classes.size = w.classes.size)
    (ha : ∀ c, v.ancestry c = w.ancestry c) (c : ClassId) : v.isAlive c = w.isAlive c := by
  simp only [isAlive, isSubclass, hd, hs, ha]

/-! ## What holds in every world -/

/-- What holds in every world that a session comes to. -/
structure Regular (w : World) : Prop where
  types : ∀ p ∈ w.registry.byClass, ∃ d, w.registry.descriptor? p.2 = some d ∧ d.cls = p.1
  /-- A class that exists leads to whatever descriptor was ever made for it. -/
  current : ∀ id d, w.registry.descriptor? id = some d → w.isAlive d.cls = true →
    w.registry.byClass.lookup d.cls = some id
  names : ∀ p ∈ w.registry.byName, ∃ d, w.registry.descriptor? p.2 = some d ∧ d.qname = p.1
  dropped : ∀ c ∈ w.dropped, ∃ i < w.classes.size, c = .declared i
  named : ∀ p ∈ w.ids, w.Usable p.2
  lineage : ∀ i < w.classes.size, w.HasLineage (.declared i)
  leads : ∀ i < w.classes.size, w.LeadsAncestry (.declared i)
  grounded : ∀ i < w.classes.size, w.Grounded (.declared i)

namespace Regular

theorem sound (h : w.Regular) : w.registry.Sound := by
  intro c id hl
  exact h.types (c, id) (Pairs.mem_of_lookup hl)

theorem usable_native (h : w.Regular) (n : Native) : w.Usable (.native n) where
  declared i hi := by cases hi
  kept hn := by
    obtain ⟨i, -, hi⟩ := h.dropped _ hn
    cases hi

theorem isAlive_native (h : w.Regular) (n : Native) : w.isAlive (.native n) = true :=
  isAlive_iff.mpr (.inl (h.usable_native n).kept)

theorem isAlive_usable (hu : w.Usable c) : w.isAlive c = true := isAlive_iff.mpr (.inl hu.kept)

theorem hasLineage (h : w.Regular) (hu : w.Usable c) : w.HasLineage c := by
  cases c with
  | native n => exact hasLineage_native n
  | declared i => exact h.lineage i (hu.declared i rfl)

theorem leadsAncestry (h : w.Regular) (hc : ∀ i, c = .declared i → i < w.classes.size) : w.LeadsAncestry c := by
  cases c with
  | native n => exact leadsAncestry_native n
  | declared i => exact h.leads i (hc i rfl)

theorem isGrounded (h : w.Regular) (hu : w.Usable c) : w.Grounded c := by
  cases c with
  | native n =>
      intro j hj
      obtain ⟨m, hm⟩ := mem_native_ancestry hj
      cases hm
  | declared i => exact h.grounded i (hu.declared i rfl)

/-- The ancestors of a usable class exist. -/
theorem isAlive_of_usable (h : w.Regular) (hu : w.Usable c) (ha : a ∈ w.ancestry c) : w.isAlive a = true := by
  cases c with
  | native n =>
      obtain ⟨m, rfl⟩ := mem_native_ancestry ha
      exact h.isAlive_native m
  | declared i => exact isAlive_iff.mpr (.inr ⟨i, hu.declared i rfl, hu.kept, ha⟩)

/-- The ancestors of a class that exists do so, too. -/
theorem isAlive_of_mem (h : w.Regular) (hc : w.isAlive c = true) (ha : a ∈ w.ancestry c) : w.isAlive a = true := by
  rcases isAlive_iff.mp hc with hkept | ⟨i, hi, hkept, hmem⟩
  · by_cases hu : w.Usable c
    · exact h.isAlive_of_usable hu ha
    · cases c with
      | native n => exact absurd (h.usable_native n) hu
      | declared i =>
          have hi : w.classes.size ≤ i := Nat.le_of_not_lt fun hi => hu ⟨fun j hj => by cases hj; exact hi, hkept⟩
          rw [ancestry_undeclared hi, List.mem_singleton] at ha
          exact ha ▸ h.isAlive_native .object
  · exact isAlive_iff.mpr (.inr ⟨i, hi, hkept, (h.lineage i hi).2 c hmem a ha⟩)

theorem descriptor_unique (h : w.Regular) {id id' : Nat} {d d' : Descriptor}
    (hd : w.registry.descriptor? id = some d) (hd' : w.registry.descriptor? id' = some d') (hc : d'.cls = d.cls)
    (ha : w.isAlive d.cls = true) : id' = id := by
  have hid := h.current id d hd ha
  have hid' := h.current id' d' hd' (hc ▸ ha)
  rw [hc, hid] at hid'
  exact (Option.some.inj hid').symm

end Regular

/-! ## What a later world knows -/

/-- A class that exists later on existed before and leads to the same descriptor, and no descriptor is forgotten. -/
structure Remembers (w v : World) : Prop where
  isAlive : ∀ c, v.isAlive c = true → w.isAlive c = true
  descriptor? : ∀ id d, w.registry.descriptor? id = some d → v.registry.descriptor? id = some d
  byClass : ∀ c id, v.isAlive c = true → w.registry.byClass.lookup c = some id →
    v.registry.byClass.lookup c = some id

namespace Remembers

theorem refl (w : World) : w.Remembers w := ⟨fun _ h => h, fun _ _ h => h, fun _ _ _ h => h⟩

theorem trans (h : w.Remembers v) (h' : v.Remembers u) : w.Remembers u where
  isAlive c hc := h.isAlive c (h'.isAlive c hc)
  descriptor? id d hd := h'.descriptor? id d (h.descriptor? id d hd)
  byClass c id hc hl := h'.byClass c id hc (h.byClass c id (h'.isAlive c hc) hl)

theorem of_registry (hr : v.registry = w.registry) (h : ∀ c, v.isAlive c = true → w.isAlive c = true) :
    w.Remembers v where
  isAlive := h
  descriptor? _ _ hd := hr ▸ hd
  byClass _ _ _ hl := hr ▸ hl

end Remembers

/-! ## Single turns -/

/-- What leaves the registry, the classes and their identifiers alone. -/
structure Spares (w v : World) : Prop where
  registry : v.registry = w.registry
  dropped : v.dropped = w.dropped
  ids : v.ids = w.ids
  size : v.classes.size = w.classes.size
  ancestry : ∀ c, v.ancestry c = w.ancestry c

theorem Spares.of_classes (hr : v.registry = w.registry) (hd : v.dropped = w.dropped) (hi : v.ids = w.ids)
    (hc : v.classes = w.classes) : w.Spares v :=
  ⟨hr, hd, hi, congrArg Array.size hc, fun c => by
    cases c with
    | native n => rfl
    | declared i => simp only [World.ancestry, World.info, hc]⟩

theorem Spares.isAlive (h : w.Spares v) (c : ClassId) : v.isAlive c = w.isAlive c :=
  isAlive_congr h.dropped h.size h.ancestry c

theorem Spares.regular (h : w.Spares v) (hw : w.Regular) : v.Regular where
  types := h.registry ▸ hw.types
  current id d hd ha := by
    rw [h.registry] at hd ⊢
    exact hw.current id d hd (h.isAlive d.cls ▸ ha)
  names p hp := by
    rw [h.registry] at hp ⊢
    exact hw.names p hp
  dropped c hc := by
    rw [h.dropped] at hc
    rw [h.size]
    exact hw.dropped c hc
  named p hp := by
    have hu := hw.named p (h.ids ▸ hp)
    exact ⟨fun i hi => h.size ▸ hu.declared i hi, h.dropped ▸ hu.kept⟩
  lineage i hi := by
    simp only [HasLineage, h.ancestry]
    exact hw.lineage i (h.size ▸ hi)
  leads i hi := by
    simp only [LeadsAncestry, h.ancestry]
    exact hw.leads i (h.size ▸ hi)
  grounded i hi := by
    simp only [Grounded, h.ancestry, h.size]
    exact hw.grounded i (h.size ▸ hi)

theorem Spares.remembers (h : w.Spares v) : w.Remembers v :=
  .of_registry h.registry fun c hc => h.isAlive c ▸ hc

/-! ### Asking for a class -/

theorem isAlive_withRegistry (g : Registry) (c : ClassId) : { w with registry := g }.isAlive c = w.isAlive c :=
  isAlive_congr rfl rfl (fun c => ancestry_registered (c := c)) c

theorem Regular.withRegistry {g : Registry} (h : w.Regular)
    (ht : ∀ p ∈ g.byClass, ∃ d, g.descriptor? p.2 = some d ∧ d.cls = p.1)
    (hc : ∀ id d, g.descriptor? id = some d → w.isAlive d.cls = true → g.byClass.lookup d.cls = some id)
    (hn : ∀ p ∈ g.byName, ∃ d, g.descriptor? p.2 = some d ∧ d.qname = p.1) :
    Regular { w with registry := g } where
  types := ht
  current id d hd ha := hc id d hd (isAlive_withRegistry g d.cls ▸ ha)
  names := hn
  dropped := h.dropped
  named p hp := ⟨(h.named p hp).declared, (h.named p hp).kept⟩
  lineage := h.lineage
  leads := h.leads
  grounded := h.grounded

theorem mem_byName_register {g : Registry} {qname name : String} {p : String × Nat}
    (h : p ∈ (g.register c qname name).1.byName) : p ∈ g.byName ∨ p = (qname, (g.register c qname name).2) := by
  unfold Registry.register at h ⊢
  split at h
  · exact .inl h
  · exact (List.mem_cons.mp h).symm.imp_left fun h => (List.mem_filter.mp h).1

theorem Regular.register (h : w.Regular) (c : ClassId) (qname name : String) :
    Regular { w with registry := (w.registry.register c qname name).1 } := by
  cases hl : w.registry.byClass.lookup c with
  | some id =>
      have hsame : (w.registry.register c qname name).1 = w.registry := by simp only [Registry.register, hl]
      rw [hsame]
      exact h
  | none =>
      have hlast : (w.registry.register c qname name).1.descriptor? w.registry.descriptors.size =
          some ⟨c, qname, name⟩ := by
        simp only [Registry.register, hl, Registry.descriptor?, Array.getElem?_push_size]
      have hpairs : (w.registry.register c qname name).1.byClass =
          (c, w.registry.descriptors.size) :: w.registry.byClass := by simp only [Registry.register, hl]
      refine h.withRegistry (fun p hp => ?_) (fun id d hd ha => ?_) fun p hp => ?_
      · rcases List.mem_cons.mp (hpairs ▸ hp) with rfl | hp
        · exact ⟨_, hlast, rfl⟩
        · obtain ⟨d, hd, hc⟩ := h.types p hp
          exact ⟨d, Registry.descriptor?_register_of_some hd, hc⟩
      · rw [hpairs]
        by_cases hid : id = w.registry.descriptors.size
        · rw [hid, hlast] at hd
          cases hd
          rw [hid]
          exact List.lookup_cons_self
        · have hd : w.registry.descriptor? id = some d := by
            simpa only [Registry.register, hl, Registry.descriptor?, Array.getElem?_push, if_neg hid] using hd
          have hold := h.current id d hd ha
          have hne : d.cls ≠ c := fun hdc => by rw [hdc, hl] at hold; cases hold
          rw [List.lookup_cons, beq_false_of_ne hne]
          exact hold
      · rcases mem_byName_register hp with hp | rfl
        · obtain ⟨d, hd, hq⟩ := h.names p hp
          exact ⟨d, Registry.descriptor?_register_of_some hd, hq⟩
        · have hid : (w.registry.register c qname name).2 = w.registry.descriptors.size := by
            simp only [Registry.register, hl]
          exact ⟨_, hid ▸ hlast, rfl⟩

theorem remembers_register (c : ClassId) (qname name : String) :
    w.Remembers { w with registry := (w.registry.register c qname name).1 } where
  isAlive c' hc := isAlive_withRegistry _ c' ▸ hc
  descriptor? _ _ hd := Registry.descriptor?_register_of_some hd
  byClass _ _ _ hl := Registry.lookup_register_of_some hl

/-! ### Sweeping the registry -/

theorem lookup_filter_key {β : Type} (p : ClassId → Bool) (pairs : List (ClassId × β)) (c : ClassId) :
    (pairs.filter fun q => p q.1).lookup c = if p c then pairs.lookup c else none := by
  induction pairs with
  | nil => simp
  | cons q rest ih =>
      obtain ⟨c', b⟩ := q
      rw [List.filter_cons]
      by_cases hc : c = c'
      · subst hc
        by_cases hp : p c = true
        · simp only [hp, ↓reduceIte, List.lookup_cons_self]
        · simpa only [hp, Bool.false_eq_true, ↓reduceIte] using ih
      · by_cases hp : p c' = true
        · simp only [hp, ↓reduceIte, List.lookup_cons, beq_false_of_ne hc, ih]
        · simp only [hp, Bool.false_eq_true, ↓reduceIte, List.lookup_cons, beq_false_of_ne hc, ih]

theorem lookup_sweep (g : Registry) (isAlive : ClassId → Bool) (isHeld : Nat → Bool) (c : ClassId) :
    (g.sweep isAlive isHeld).byClass.lookup c = if isAlive c then g.byClass.lookup c else none :=
  lookup_filter_key isAlive g.byClass c

theorem Regular.sweep (h : w.Regular) (isHeld : Nat → Bool) :
    Regular { w with registry := w.registry.sweep w.isAlive isHeld } := by
  refine h.withRegistry (fun p hp => ?_) (fun id d hd ha => ?_) fun p hp => ?_
  · exact h.types p (List.mem_filter.mp hp).1
  · rw [lookup_sweep, if_pos ha]
    exact h.current id d hd ha
  · exact h.names p (List.mem_filter.mp hp).1

theorem remembers_sweep (isHeld : Nat → Bool) :
    w.Remembers { w with registry := w.registry.sweep w.isAlive isHeld } where
  isAlive c hc := isAlive_withRegistry _ c ▸ hc
  descriptor? _ _ hd := hd
  byClass c id hc hl := by
    rw [lookup_sweep, if_pos (isAlive_withRegistry _ c ▸ hc)]
    exact hl

/-! ### Classes that end -/

/-- What drops classes, and the identifiers of those that it drops. -/
structure Drops (w v : World) : Prop where
  registry : v.registry = w.registry
  size : v.classes.size = w.classes.size
  ancestry : ∀ c, v.ancestry c = w.ancestry c
  kept : ∀ c ∈ w.dropped, c ∈ v.dropped
  declared : ∀ c ∈ v.dropped, c ∈ w.dropped ∨ ∃ i < w.classes.size, c = .declared i
  ids : ∀ p ∈ v.ids, p ∈ w.ids ∧ (p.2 ∉ w.dropped → p.2 ∉ v.dropped)

theorem Drops.isAlive (h : w.Drops v) (hc : v.isAlive c = true) : w.isAlive c = true := by
  rcases isAlive_iff.mp hc with hkept | ⟨i, hi, hkept, hmem⟩
  · exact isAlive_iff.mpr (.inl fun hdropped => hkept (h.kept c hdropped))
  · exact isAlive_iff.mpr (.inr ⟨i, h.size ▸ hi, fun hdropped => hkept (h.kept _ hdropped), h.ancestry _ ▸ hmem⟩)

theorem Drops.regular (h : w.Drops v) (hw : w.Regular) : v.Regular where
  types := h.registry ▸ hw.types
  current id d hd ha := by
    rw [h.registry] at hd ⊢
    exact hw.current id d hd (h.isAlive ha)
  names p hp := by
    rw [h.registry] at hp ⊢
    exact hw.names p hp
  dropped c hc := by
    rw [h.size]
    exact (h.declared c hc).elim (hw.dropped c) id
  named p hp := by
    obtain ⟨hp, hkept⟩ := h.ids p hp
    have hu := hw.named p hp
    exact ⟨fun i hi => h.size ▸ hu.declared i hi, hkept hu.kept⟩
  lineage i hi := by
    simp only [HasLineage, h.ancestry]
    exact hw.lineage i (h.size ▸ hi)
  leads i hi := by
    simp only [LeadsAncestry, h.ancestry]
    exact hw.leads i (h.size ▸ hi)
  grounded i hi := by
    simp only [Grounded, h.ancestry, h.size]
    exact hw.grounded i (h.size ▸ hi)

theorem Drops.remembers (h : w.Drops v) : w.Remembers v := .of_registry h.registry fun _ hc => h.isAlive hc

theorem ancestry_of_classes (hs : v.classes.size = w.classes.size)
    (h : ∀ (i : Nat) (x : ClassInfo), w.classes[i]? = some x → ∃ y, v.classes[i]? = some y ∧ y.ancestry = x.ancestry)
    (c : ClassId) : v.ancestry c = w.ancestry c := by
  cases c with
  | native n => rfl
  | declared i =>
      by_cases hi : i < w.classes.size
      · obtain ⟨y, hv, hy⟩ := h i _ (Array.getElem?_eq_getElem hi)
        simp only [ancestry, info, hv, Array.getElem?_eq_getElem hi, Option.getD_some, hy]
      · rw [ancestry_undeclared (Nat.le_of_not_lt hi), ancestry_undeclared (hs ▸ Nat.le_of_not_lt hi)]

theorem drops_unbindClass : w.Drops (w.unbindClass c) where
  registry := rfl
  size := by simp only [unbindClass, Array.size_map]
  ancestry := ancestry_of_classes (by simp only [unbindClass, Array.size_map]) fun j x hx =>
    ⟨{ x with entries := x.entries.filter fun e => !isEntryOf c e.2 },
      by simp only [unbindClass, Array.getElem?_map, hx, Option.map_some], rfl⟩
  kept _ hc := hc
  declared _ hc := .inl hc
  ids _ hp := ⟨(List.mem_filter.mp hp).1, id⟩

theorem drops_collect {gone : List ClassId}
    (h : ∀ c ∈ gone, (∃ i < w.classes.size, c = .declared i) ∧ ∀ p ∈ w.ids, p.2 ≠ c) :
    w.Drops { w with dropped := gone ++ w.dropped } where
  registry := rfl
  size := rfl
  ancestry c := by cases c <;> rfl
  kept _ hc := List.mem_append_right _ hc
  declared c hc := (List.mem_append.mp hc).symm.imp_right fun hc => (h c hc).1
  ids p hp := by
    refine ⟨hp, fun hkept hdropped => ?_⟩
    rcases List.mem_append.mp hdropped with hgone | hdropped
    · exact (h p.2 hgone).2 p hp rfl
    · exact hkept hdropped

/-! ### Declaring a class -/

theorem order_of_info {d : Declaration} {x : ClassInfo} (h : d.info w c = .ok x) : d.order w c = .ok x.ancestry := by
  unfold Declaration.info at h
  dsimp only at h
  cases hp : w.storageParent? d.parents with
  | none =>
      rw [hp] at h
      split at h <;> cases h
  | some parent =>
      rw [hp] at h
      split at h
      · cases h
      · obtain ⟨-, -, h⟩ := bind_ok_iff.mp h
        obtain ⟨order, horder, h⟩ := bind_ok_iff.mp h
        cases h
        exact horder

/-- The order that a new class gets starts with the class. -/
theorem leadsAncestry_order {d : Declaration} {order : List ClassId} (h : d.order w c = .ok order) :
    ∃ later, order = c :: later := by
  unfold Declaration.order at h
  split at h
  · rename_i hlinear
    cases h
    obtain ⟨later, -, rfl⟩ := Option.map_eq_some_iff.mp hlinear
    exact ⟨later, rfl⟩
  · cases h

theorem mem_declared_ancestry {d : Declaration} {x : ClassInfo} (h : d.info w c = .ok x) :
    a ∈ x.ancestry ↔ a = c ∨ (∃ p ∈ d.parents, a ∈ w.ancestry p) ∨ a ∈ d.parents := by
  have horder := order_of_info h
  unfold Declaration.order at horder
  split at horder
  · rename_i order hlinear
    cases horder
    rw [Linearization.mem_linearize? hlinear]
    simp only [List.mem_map, exists_exists_and_eq_and]
  · cases horder

section Declare

variable {d : Declaration} {x : ClassInfo}

theorem ancestry_declare_of_ne (hc : c ≠ .declared w.classes.size) :
    ancestry { w with classes := w.classes.push x } c = w.ancestry c := by
  cases c with
  | native n => rfl
  | declared i =>
      have hi : i ≠ w.classes.size := fun h => hc (by rw [h])
      simp only [ancestry, info, Array.getElem?_push, if_neg hi]

theorem ancestry_declare : ancestry { w with classes := w.classes.push x } (.declared w.classes.size) = x.ancestry := by
  simp only [ancestry, info, Array.getElem?_push_size, Option.getD_some]

variable (hw : w.Regular) (hbases : ∀ b ∈ d.bases, w.Usable b) (hx : d.info w (.declared w.classes.size) = .ok x)

include hw hbases in
theorem usable_parents : ∀ p ∈ d.parents, w.Usable p := by
  intro p hp
  unfold Declaration.parents at hp
  split at hp
  · exact List.mem_singleton.mp hp ▸ hw.usable_native .object
  · exact hbases p hp

theorem Usable.ne_next (hu : w.Usable c) : c ≠ .declared w.classes.size := fun h =>
  Nat.lt_irrefl _ (hu.declared _ h)

theorem Grounded.ne_next (hg : w.Grounded c) (ha : a ∈ w.ancestry c) : a ≠ .declared w.classes.size := fun h =>
  Nat.lt_irrefl _ (hg _ (h ▸ ha))

include hw hbases hx in
theorem isAlive_of_declare (hc : isAlive { w with classes := w.classes.push x } c = true) : w.isAlive c = true := by
  have hparents := usable_parents hw hbases
  rcases isAlive_iff.mp hc with hkept | ⟨i, hi, hkept, hmem⟩
  · exact isAlive_iff.mpr (.inl hkept)
  · by_cases hnew : i = w.classes.size
    · subst hnew
      rw [ancestry_declare] at hmem
      rcases (mem_declared_ancestry hx).mp hmem with rfl | ⟨p, hp, hmem⟩ | hmem
      · exact isAlive_iff.mpr (.inl hkept)
      · exact hw.isAlive_of_usable (hparents p hp) hmem
      · exact Regular.isAlive_usable (hparents c hmem)
    · rw [ancestry_declare_of_ne fun h => hnew (ClassId.declared.inj h)] at hmem
      rw [Array.size_push] at hi
      exact isAlive_iff.mpr (.inr ⟨i, by omega, hkept, hmem⟩)

include hw hbases hx in
/-- What a new class has for its ancestry are its own, those of its parents, and theirs. -/
theorem ancestry_of_mem_declare (ha : a ∈ x.ancestry) :
    a = .declared w.classes.size ∨ a ≠ .declared w.classes.size ∧ (∀ b ∈ w.ancestry a, b ∈ x.ancestry) := by
  have hparents := usable_parents hw hbases
  rcases (mem_declared_ancestry hx).mp ha with rfl | ⟨p, hp, hmem⟩ | hp
  · exact .inl rfl
  · refine .inr ⟨(hw.isGrounded (hparents p hp)).ne_next hmem, fun b hb => ?_⟩
    exact (mem_declared_ancestry hx).mpr (.inr (.inl ⟨p, hp, (hw.hasLineage (hparents p hp)).2 a hmem b hb⟩))
  · exact .inr ⟨(hparents a hp).ne_next, fun b hb => (mem_declared_ancestry hx).mpr (.inr (.inl ⟨a, hp, hb⟩))⟩

include hw hbases hx in
theorem regular_declare : Regular { w with classes := w.classes.push x } where
  types := hw.types
  current id d hd ha := hw.current id d hd (isAlive_of_declare hw hbases hx ha)
  names := hw.names
  dropped c hc := by
    obtain ⟨i, hi, rfl⟩ := hw.dropped c hc
    exact ⟨i, by rw [Array.size_push]; omega, rfl⟩
  named p hp := by
    have hu := hw.named p hp
    refine ⟨fun i hi => ?_, hu.kept⟩
    have := hu.declared i hi
    rw [Array.size_push]
    omega
  lineage i hi := by
    by_cases hnew : i = w.classes.size
    · subst hnew
      unfold HasLineage
      rw [ancestry_declare]
      refine ⟨(mem_declared_ancestry hx).mpr (.inl rfl), fun a ha b hb => ?_⟩
      rcases ancestry_of_mem_declare hw hbases hx ha with rfl | ⟨hne, hsub⟩
      · rwa [ancestry_declare] at hb
      · exact hsub b (ancestry_declare_of_ne hne ▸ hb)
    · rw [Array.size_push] at hi
      have hi : i < w.classes.size := by omega
      have hne : ClassId.declared i ≠ .declared w.classes.size := fun h => hnew (ClassId.declared.inj h)
      unfold HasLineage
      rw [ancestry_declare_of_ne hne]
      obtain ⟨hself, htrans⟩ := hw.lineage i hi
      refine ⟨hself, fun a ha b hb => htrans a ha b ?_⟩
      exact ancestry_declare_of_ne ((hw.grounded i hi).ne_next ha) ▸ hb
  leads i hi := by
    unfold LeadsAncestry
    by_cases hnew : i = w.classes.size
    · subst hnew
      rw [ancestry_declare]
      exact leadsAncestry_order (order_of_info hx)
    · rw [Array.size_push] at hi
      rw [ancestry_declare_of_ne fun h => hnew (ClassId.declared.inj h)]
      exact hw.leads i (by omega)
  grounded i hi := by
    intro j hj
    rw [Array.size_push] at hi ⊢
    by_cases hnew : i = w.classes.size
    · subst hnew
      rw [ancestry_declare] at hj
      rcases (mem_declared_ancestry hx).mp hj with heq | ⟨p, hp, hmem⟩ | hp
      · cases heq; omega
      · have := hw.isGrounded (usable_parents hw hbases p hp) j hmem
        omega
      · have := (usable_parents hw hbases _ hp).declared j rfl
        omega
    · rw [ancestry_declare_of_ne fun h => hnew (ClassId.declared.inj h)] at hj
      have := hw.grounded i (by omega) j hj
      omega

include hw hbases hx in
theorem remembers_declare : w.Remembers { w with classes := w.classes.push x } :=
  .of_registry rfl fun _ hc => isAlive_of_declare hw hbases hx hc

end Declare

/-! ## Every turn -/

theorem spares_modifyClass {i : Nat} {f : ClassInfo → ClassInfo} (h : ∀ x, (f x).ancestry = x.ancestry) :
    w.Spares (w.modifyClass i f) where
  registry := rfl
  dropped := rfl
  ids := rfl
  size := by simp only [modifyClass, Array.size_modify]
  ancestry := ancestry_of_classes (by simp only [modifyClass, Array.size_modify]) fun j x hx => by
    refine ⟨if i = j then f x else x, ?_, ?_⟩
    · rw [modifyClass, Array.getElem?_modify, hx]
      split <;> rfl
    · split
      · exact h x
      · rfl

theorem Regular.identify (h : w.Regular) {id : String} (hu : w.Usable c) :
    Regular { w with ids := Pairs.put id c w.ids } where
  types := h.types
  current := h.current
  names := h.names
  dropped := h.dropped
  named p hp := by
    rcases Pairs.mem_put hp with rfl | hp
    · exact ⟨hu.declared, hu.kept⟩
    · exact ⟨(h.named p hp).declared, (h.named p hp).kept⟩
  lineage := h.lineage
  leads := h.leads
  grounded := h.grounded

theorem Acts.regular (h : w.Acts v) (hw : w.Regular) : v.Regular := by
  cases h with
  | register c => exact hw.register c _ _
  | alloc cell => exact Spares.regular (w := w) (.of_classes rfl rfl rfl rfl) hw
  | edit address f hf => exact Spares.regular (w := w) (.of_classes rfl rfl rfl rfl) hw
  | record config log => exact Spares.regular (w := w) (.of_classes rfl rfl rfl rfl) hw

theorem Acts.remembers (h : w.Acts v) : w.Remembers v := by
  cases h with
  | register c => exact remembers_register c _ _
  | alloc cell => exact Spares.remembers (.of_classes rfl rfl rfl rfl)
  | edit address f hf => exact Spares.remembers (.of_classes rfl rfl rfl rfl)
  | record config log => exact Spares.remembers (.of_classes rfl rfl rfl rfl)

theorem Turns.regular (h : w.Turns v) (hw : w.Regular) : v.Regular := by
  cases h with
  | acts h => exact h.regular hw
  | define f => exact Spares.regular (w := w) (.of_classes rfl rfl rfl rfl) hw
  | declare d x hbases hx => exact regular_declare hw hbases hx
  | change i f hf => exact (spares_modifyClass hf).regular hw
  | store address f => exact Spares.regular (w := w) (.of_classes rfl rfl rfl rfl) hw
  | rebind modules => exact Spares.regular (w := w) (.of_classes rfl rfl rfl rfl) hw
  | identify id c hu => exact hw.identify hu
  | unbind c => exact drops_unbindClass.regular hw
  | collect gone hgone => exact (drops_collect hgone).regular hw
  | sweep isHeld => exact hw.sweep isHeld

theorem Turns.remembers (h : w.Turns v) (hw : w.Regular) : w.Remembers v := by
  cases h with
  | acts h => exact h.remembers
  | define f => exact Spares.remembers (.of_classes rfl rfl rfl rfl)
  | declare d x hbases hx => exact remembers_declare hw hbases hx
  | change i f hf => exact (spares_modifyClass hf).remembers
  | store address f => exact Spares.remembers (.of_classes rfl rfl rfl rfl)
  | rebind modules => exact Spares.remembers (.of_classes rfl rfl rfl rfl)
  | identify id c hu => exact .of_registry rfl fun c hc => by cases c <;> exact hc
  | unbind c => exact drops_unbindClass.remembers
  | collect gone hgone => exact (drops_collect hgone).remembers
  | sweep isHeld => exact remembers_sweep isHeld

theorem Passes.regular_and_remembers (h : w.Passes v) (hw : w.Regular) : v.Regular ∧ w.Remembers v := by
  induction h with
  | refl => exact ⟨hw, .refl w⟩
  | tail _ hturn ih => exact ⟨hturn.regular ih.1, ih.2.trans (hturn.remembers ih.1)⟩

theorem Passes.regular (h : w.Passes v) (hw : w.Regular) : v.Regular := (h.regular_and_remembers hw).1

theorem Passes.remembers (h : w.Passes v) (hw : w.Regular) : w.Remembers v := (h.regular_and_remembers hw).2

end World

end Introspect
