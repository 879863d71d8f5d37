import Introspect.Proofs.World.Parts
/-!
Reading what an object stores. Where the slot names of a class lead to its slots, reading runs no code,
and the fields settle.
-/
namespace Introspect

namespace World

/-- The name leads to a slot, or to nothing that the class has. -/
def readsQuietly (w : World) (r : Ref) (name : String) : Bool :=
  match w.entryOf? (w.classOf r) name, w.body r with
  | some (_, .slot _), _ => true
  | none, .bound .. => false
  | none, _ => true
  | _, _ => false

def slotValue? (w : World) (r : Ref) (name : String) : Option Ref :=
  match w.entryOf? (w.classOf r) name with
  | some (holder, .slot key) => w.slot? r holder key
  | _ => ((w.dictionary? r).getD []).lookup name

def filledSlots (w : World) (r : Ref) (names : List String) : List (String × Ref) :=
  names.filterMap fun name => (w.slotValue? r name).map (name, ·)

/-- An object whose slots all read quietly. -/
structure StoresQuietly (w : World) (r : Ref) : Prop where
  has : w.Has r
  object : w.isObject r = true
  quiet : ∀ name ∈ w.slotNames (w.classOf r), w.readsQuietly r name = true

def storedFields (w : World) (r : Ref) : List (String × Ref) :=
  Pairs.putAll (w.filledSlots r (w.slotNames (w.classOf r))) ((w.dictionary? r).getD [])

variable {b v : World} {r : Ref} {name : String}

theorem readsQuietly_grows (hr : b.Has r) (hv : b.Grows v) :
    v.readsQuietly r name = b.readsQuietly r name := by
  simp only [readsQuietly, hv.classOf hr, hv.entryOf?, hv.body hr]

theorem slotValue?_grows (hr : b.Has r) (hv : b.Grows v) : v.slotValue? r name = b.slotValue? r name := by
  simp only [slotValue?, hv.classOf hr, hv.entryOf?, hv.dictionary? hr, hv.slot? hr]

theorem storedFields_grows (hr : b.Has r) (hv : b.Grows v) : v.storedFields r = b.storedFields r := by
  simp only [storedFields, filledSlots, slotValue?_grows hr hv, hv.classOf hr, hv.slotNames,
    hv.dictionary? hr]

theorem isObject_grows (hr : b.Has r) (hv : b.Grows v) : v.isObject r = b.isObject r := by
  simp only [isObject, hv.body hr]

theorem StoresQuietly.noClass (h : b.StoresQuietly r) (c : ClassId) : r ≠ .cls c := fun hc => by
  have ho := h.object
  rw [hc] at ho
  cases ho

theorem StoresQuietly.grows (h : b.StoresQuietly r) (hv : b.Grows v) : v.StoresQuietly r where
  has := hv.has h.has
  object := (isObject_grows h.has hv).trans h.object
  quiet name hn := by
    rw [hv.classOf h.has, hv.slotNames] at hn
    rw [readsQuietly_grows h.has hv]
    exact h.quiet name hn

theorem perform_attribute (d : Nat) (hc : ∀ c, r ≠ .cls c) :
    Dispatch.perform (d + 1) (.attribute r name) b = Dispatch.instanceAttribute (Dispatch.perform d) r name b := by
  cases r with
  | cls c => exact absurd rfl (hc c)
  | _ => rfl

/-- A slot answers what it is filled with. -/
theorem bindEntry_slot (more : Ask) (b : World) (r : Ref) (cls holder : ClassId) (name key : String) :
    Dispatch.bindEntry more (some r) cls holder name (.slot key) b =
      ending ((b.slot? r holder key).elim (.error .attributeError) .ok) b := by
  rw [Dispatch.bindEntry, run_get]
  cases b.slot? r holder key <;> rfl

/-- A name that the class does not have leads to what stands in the attribute dictionary. -/
theorem attribute_unlisted (d : Nat) (hc : ∀ c, r ≠ .cls c) (hb : ∀ x f, b.body r ≠ .bound x f)
    (he : b.entryOf? (b.classOf r) name = none) :
    Dispatch.perform (d + 1) (.attribute r name) b =
      ending ((((b.dictionary? r).getD []).lookup name).elim (.error .attributeError) .ok) b := by
  rw [perform_attribute d hc, Dispatch.instanceAttribute, run_get, he]
  cases ((b.dictionary? r).getD []).lookup name with
  | some value => rfl
  | none =>
      cases hbody : b.body r with
      | bound x f => exact absurd hbody (hb x f)
      | _ => rfl

/-- A slot comes before the attribute dictionary. -/
theorem attribute_slot {holder : ClassId} {key : String} (d : Nat) (hc : ∀ c, r ≠ .cls c)
    (he : b.entryOf? (b.classOf r) name = some (holder, .slot key)) :
    Dispatch.perform (d + 1) (.attribute r name) b =
      ending ((b.slot? r holder key).elim (.error .attributeError) .ok) b := by
  have hslot := bindEntry_slot (Dispatch.perform d) b r (b.classOf r) holder name key
  rw [perform_attribute d hc, Dispatch.instanceAttribute, run_get, he]
  cases ((b.dictionary? r).getD []).lookup name <;> exact hslot

/-- Reading quietly leaves the world as it is. -/
theorem attribute_of_readsQuietly (d : Nat) (hc : ∀ c, r ≠ .cls c) (hq : b.readsQuietly r name = true) :
    Dispatch.perform (d + 1) (.attribute r name) b =
      ending ((b.slotValue? r name).elim (.error .attributeError) .ok) b := by
  unfold readsQuietly at hq
  unfold slotValue?
  cases he : b.entryOf? (b.classOf r) name with
  | none =>
      refine attribute_unlisted d hc (fun x f hb => ?_) he
      rw [he, hb] at hq
      cases hq
  | some found =>
      obtain ⟨holder, e⟩ := found
      rw [he] at hq
      cases e with
      | slot key => exact attribute_slot d hc he
      | _ => cases hq

/-- An attribute that is missing is read as none. -/
theorem attribute?_eq {u : World} {x : Option Ref}
    (h : Dispatch.ask (.attribute r name) b = ending (x.elim (.error .attributeError) .ok) u) :
    Dispatch.ask.attribute? r name b = .ok x u := by
  change (EStateM.tryCatch (EStateM.bind (Dispatch.ask (.attribute r name)) fun x => pure (some x)) _) b = _
  simp only [EStateM.tryCatch, EStateM.bind, h]
  cases x <;> rfl

/-- Reading an attribute answers a value or nothing, in every later world. -/
theorem steady_attribute?_of {x : Option Ref} (hd : 1 ≤ b.nesting)
    (h : ∀ d v, b.Leads v → Dispatch.perform (d + 1) (.attribute r name) v = ending (x.elim (.error .attributeError) .ok) v) :
    b.Steady (Dispatch.ask.attribute? r name) (.ok x) := by
  intro v hv
  refine ⟨v, .refl v, ?_⟩
  obtain ⟨d, hd⟩ := Nat.exists_eq_add_of_le' (hv.nesting ▸ hd)
  have hask : Dispatch.ask (.attribute r name) v = Dispatch.perform (d + 1) (.attribute r name) v := by
    rw [← hd]; rfl
  exact attribute?_eq (hask.trans (h d v hv))

theorem steady_attribute? (hd : 1 ≤ b.nesting) (hr : b.Has r) (hc : ∀ c, r ≠ .cls c)
    (hq : b.readsQuietly r name = true) :
    b.Steady (Dispatch.ask.attribute? r name) (.ok (b.slotValue? r name)) := by
  refine steady_attribute?_of hd fun d v hv => ?_
  rw [← slotValue?_grows hr hv.grows]
  exact attribute_of_readsQuietly d hc ((readsQuietly_grows hr hv.grows).trans hq)

/-- The values that are found, by name. -/
def foundAmong (value? : String → Option Ref) (names : List String) : List (String × Ref) :=
  names.filterMap fun name => (value? name).map (name, ·)

theorem steady_slotFields {value? : String → Option Ref} {names : List String}
    (h : ∀ name ∈ names, b.Steady (Dispatch.ask.attribute? r name) (.ok (value? name))) :
    b.Steady (slotFields r names) (.ok (foundAmong value? names)) := by
  induction names with
  | nil => exact .pure b []
  | cons name rest ih =>
      have hrest := ih fun name h' => h name (List.mem_cons_of_mem _ h')
      refine (h name List.mem_cons_self).bind (g := fun _ => .ok (foundAmong value? (name :: rest))) fun x hx => ?_
      cases hx
      rw [foundAmong, List.filterMap_cons]
      cases value? name with
      | none => exact hrest
      | some value =>
          exact hrest.bind (g := fun more => .ok ((name, value) :: more)) fun more _ =>
            .pure b ((name, value) :: more)

/-- The fields are what is found under the names of slots, and what stands in the dictionary. -/
theorem steady_fields_of {value? : String → Option Ref} (hr : b.Has r) (hc : ∀ c, r ≠ .cls c)
    (h : ∀ name ∈ b.slotNames (b.classOf r), b.Steady (Dispatch.ask.attribute? r name) (.ok (value? name))) :
    b.Steady (fields r)
      (.ok (Pairs.putAll (foundAmong value? (b.slotNames (b.classOf r))) ((b.dictionary? r).getD []))) := by
  refine .get fun v hv => ?_
  have hr' := hv.grows.has hr
  rw [hv.grows.classOf hr, hv.grows.slotNames]
  refine ((steady_slotFields h).mono hv).bind (g := fun slots => .ok (Pairs.putAll slots ((b.dictionary? r).getD [])))
    fun slots _ => ?_
  refine .get fun u hu => ?_
  have hown : u.dictionary? r = b.dictionary? r := (hu.grows.dictionary? hr').trans (hv.grows.dictionary? hr)
  cases r with
  | cls c => exact absurd rfl (hc c)
  | _ => rw [← hown]; exact .pure u _

theorem steady_fields (hd : 1 ≤ b.nesting) (h : b.StoresQuietly r) :
    b.Steady (fields r) (.ok (b.storedFields r)) :=
  steady_fields_of h.has h.noClass fun name hn => steady_attribute? hd h.has h.noClass (h.quiet name hn)

theorem settles_fields {w : World} (h : w.StoresQuietly r) :
    w.Settles (fields r) (.ok (w.storedFields r)) := by
  refine Filter.eventually_atTop.mpr ⟨1, fun n hn => ?_⟩
  rw [← storedFields_grows h.has (w.grows_limited n)]
  exact steady_fields hn (h.grows (w.grows_limited n))

/-! ## Computing the parts -/

instance (w : World) (r : Ref) : Decidable (w.Has r) :=
  match r with
  | .cell i => inferInstanceAs (Decidable (i < w.cells.size))
  | .descriptor id => inferInstanceAs (Decidable (w.registry.descriptor? id).isSome)
  | .atom _ | .emptyTuple | .cls _ | .weak _ | .routine _ | .entry .. | .ellipsis | .notImplemented =>
    .isTrue trivial

instance (w : World) (r : Ref) : Decidable (w.StoresQuietly r) :=
  decidable_of_iff (w.Has r ∧ w.isObject r = true ∧
      ∀ name ∈ w.slotNames (w.classOf r), w.readsQuietly r name = true)
    ⟨fun ⟨hr, ho, hq⟩ => ⟨hr, ho, hq⟩, fun h => ⟨h.has, h.object, h.quiet⟩⟩

def parts (w : World) (r : Ref) : List Ref :=
  match w.body r with
  | .box c _ => [c]
  | .mapping entries => entries.map (·.1) ++ entries.map (·.2)
  | .members items => items
  | _ => (w.items? r).getD [] ++ if w.isObject r then (w.storedFields r).map (·.2) else []

theorem mem_parts {w : World} {r c : Ref} (hq : w.isObject r = true → w.StoresQuietly r)
    (h : w.Part r c) : c ∈ w.parts r := by
  unfold parts
  rcases h with (hb | ⟨hi, hc⟩ | ⟨hb, he⟩ | ⟨ho, he⟩) | (⟨hb, he⟩ | ⟨hb, hc⟩)
  · rw [hb]; exact List.mem_singleton_self c
  · have hi' := hi
    unfold items? at hi'
    split <;> simp_all
  · rw [hb]; exact List.mem_append_right _ (List.mem_map_of_mem he)
  · have ho' := ho
    rw [storage_eq (settles_fields (hq ho))] at he
    have hmem := List.mem_map_of_mem (f := Prod.snd) he
    unfold isObject at ho'
    split <;> simp_all
  · rw [hb]; exact List.mem_append_left _ (List.mem_map_of_mem he)
  · rw [hb]; exact hc

theorem Closed.of_parts {w : World} {S : List Ref} (hs : w.registry.Sound)
    (hhas : ∀ r ∈ S, w.Has r) (hq : ∀ r ∈ S, w.isObject r = true → w.StoresQuietly r)
    (hparts : ∀ r ∈ S, ∀ c ∈ w.parts r, c ∈ S) : w.Closed S where
  has := hhas
  parts r hr c hc := hparts r hr c (mem_parts (hq r hr) hc)
  sound := hs

end World

end Introspect
