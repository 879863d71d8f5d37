import Mathlib.Order.Filter.Finite
import Introspect.Proofs.World.Settles
/-!
The parts of objects. A part stands inside an object as its content, item, value or field, or it is
hashed there as a key or a member. Keys that are one key stay one key in a world that grows.
-/
namespace Introspect.World

/-- Objects that hold nothing but their fields. -/
def isObject (w : World) (r : Ref) : Bool :=
  match w.body r with
  | .error .. | .descriptor _ | .stream | .nothing => true
  | _ => false

theorem body_of_atom? {w : World} {r : Ref} {a : Atom} (h : w.atom? r = some a) : w.body r = .atom a := by
  unfold atom? at h
  cases hb : w.body r <;> simp_all

theorem has_of_isPlain {w : World} {r : Ref} (h : w.isPlain r = true) : w.Has r := by
  cases r with
  | cell i =>
      refine Nat.lt_of_not_le fun hi => ?_
      have hc : w.cells[i]? = none := Array.getElem?_eq_none hi
      simp [isPlain, atom?, body, hc] at h
  | descriptor id => cases h
  | _ => trivial

theorem items?_of_isObject {w : World} {r : Ref} (h : w.isObject r = true) : w.items? r = none := by
  unfold isObject at h
  unfold items?
  cases hb : w.body r <;> simp_all

noncomputable def storage (w : World) (r : Ref) : List (String × Ref) :=
  match w.answer (fields r) with
  | .ok pairs => pairs
  | .error _ => []

theorem storage_eq {w : World} {r : Ref} {pairs : List (String × Ref)}
    (h : w.Settles (fields r) (.ok pairs)) : w.storage r = pairs := by
  simp only [storage, h.answer_eq]

inductive Inside (w : World) (r c : Ref) : Prop where
  | content {t} : w.body r = .box c t → Inside w r c
  | item {items} : w.items? r = some items → c ∈ items → Inside w r c
  | value {entries k} : w.body r = .mapping entries → (k, c) ∈ entries → Inside w r c
  | field {n} : w.isObject r = true → (n, c) ∈ w.storage r → Inside w r c

inductive Hashed (w : World) (r c : Ref) : Prop where
  | key {entries v} : w.body r = .mapping entries → (c, v) ∈ entries → Hashed w r c
  | member {items} : w.body r = .members items → c ∈ items → Hashed w r c

def Part (w : World) (r c : Ref) : Prop := w.Inside r c ∨ w.Hashed r c

/-- References that the world holds, with all their parts. -/
structure Closed (w : World) (S : List Ref) : Prop where
  has : ∀ r ∈ S, w.Has r
  parts : ∀ r ∈ S, ∀ c, w.Part r c → c ∈ S
  sound : w.registry.Sound

theorem eventually_forall_mem {S : List Ref} {P : Ref → Nat → Prop} (h : ∀ x ∈ S, ∀ᶠ n in Filter.atTop, P x n) :
    ∀ᶠ n in Filter.atTop, ∀ x ∈ S, P x n := by
  have hall := (Filter.eventually_all_finset S.toFinset (l := Filter.atTop) (p := fun x n => P x n)).mpr
    fun x hx => h x (List.mem_toFinset.mp hx)
  exact hall.mono fun n hn x hx => hn x (List.mem_toFinset.mpr hx)

/-- Nothing in the list is a part of itself, nor a part of its parts. -/
def Acyclic (w : World) (S : List Ref) : Prop := ∀ r ∈ S, ¬ Relation.TransGen w.Part r r

/-- The references of the list that a relation leads to. -/
noncomputable def descendants (R : Ref → Ref → Prop) (S : List Ref) (r : Ref) : Finset Ref :=
  open Classical in S.toFinset.filter fun c => Relation.TransGen R r c

theorem mem_descendants {R : Ref → Ref → Prop} {S : List Ref} {r c : Ref} :
    c ∈ descendants R S r ↔ c ∈ S ∧ Relation.TransGen R r c := by
  simp only [descendants, Finset.mem_filter, List.mem_toFinset]

theorem card_descendants_le {R : Ref → Ref → Prop} {S : List Ref} {r : Ref} :
    (descendants R S r).card ≤ S.toFinset.card :=
  Finset.card_le_card fun _ hc => List.mem_toFinset.mpr (mem_descendants.mp hc).1

/-- What is on no cycle has fewer descendants than what leads to it. -/
theorem card_descendants_lt {R : Ref → Ref → Prop} {S : List Ref} {r c : Ref} (hc : c ∈ S) (h : R r c)
    (hcycle : ¬ Relation.TransGen R c c) : (descendants R S c).card < (descendants R S r).card := by
  refine Finset.card_lt_card ⟨fun x hx => ?_, fun hsub => ?_⟩
  · obtain ⟨hmem, hx⟩ := mem_descendants.mp hx
    exact mem_descendants.mpr ⟨hmem, .head h hx⟩
  · exact hcycle (mem_descendants.mp (hsub (mem_descendants.mpr ⟨hc, .single h⟩))).2

/-- How many references of the list are parts of a reference or of its parts. -/
noncomputable def height (w : World) (S : List Ref) (r : Ref) : Nat :=
  open Classical in (S.toFinset.filter fun c => Relation.TransGen w.Part r c).card

theorem height_lt {w : World} {S : List Ref} (hac : w.Acyclic S) {r c : Ref} (hc : c ∈ S)
    (h : w.Part r c) : w.height S c < w.height S r :=
  card_descendants_lt hc h (hac c hc)

/-- Where parts have a smaller rank, nothing is a part of itself. -/
theorem Closed.acyclic_of_rank {w : World} {S : List Ref} (hS : w.Closed S) (rank : Ref → Nat)
    (h : ∀ r ∈ S, ∀ c, w.Part r c → rank c < rank r) : w.Acyclic S := by
  intro r hr hloop
  have hlower : ∀ c, Relation.TransGen w.Part r c → c ∈ S ∧ rank c < rank r := by
    intro c hc
    induction hc with
    | single hp => exact ⟨hS.parts r hr _ hp, h r hr _ hp⟩
    | tail _ hp ih => exact ⟨hS.parts _ ih.1 _ hp, Nat.lt_trans (h _ ih.1 _ hp) ih.2⟩
  exact Nat.lt_irrefl _ (hlower r hloop).2

/-! ## Keys -/

def SameKey (w : World) (a b : Ref) : Prop := ∃ depth, w.sameKey depth a b = true

noncomputable def entryFor? (w : World) (key : Ref) (entries : List (Ref × Ref)) :
    Option (Ref × Ref) :=
  open Classical in entries.find? fun e => w.SameKey e.1 key

theorem sameKey_succ {w : World} {depth : Nat} {a b : Ref} (h : w.sameKey depth a b = true) :
    w.sameKey (depth + 1) a b = true := by
  induction depth generalizing a b with
  | zero =>
      have hab : a = b := by simpa [sameKey] using h
      simp [sameKey, hab]
  | succ depth ih =>
      rw [sameKey, Bool.or_eq_true] at h ⊢
      refine h.imp_right fun h => ?_
      split at h <;> simp_all
      · intro x hx
        obtain ⟨y, hy, hxy⟩ := h.2 x hx
        exact ⟨y, hy, ih hxy⟩

theorem sameKey_mono {w : World} {depth depth' : Nat} {a b : Ref} (hd : depth ≤ depth')
    (h : w.sameKey depth a b = true) : w.sameKey depth' a b = true := by
  induction hd with
  | refl => exact h
  | step _ ih => exact sameKey_succ ih

theorem SameKey.eventually_iff (w : World) (a b : Ref) :
    ∀ᶠ n in Filter.atTop, (w.sameKey n a b = true ↔ w.SameKey a b) := by
  by_cases h : w.SameKey a b
  · obtain ⟨depth, hd⟩ := h
    exact Filter.eventually_atTop.mpr
      ⟨depth, fun n hn => ⟨fun h => ⟨n, h⟩, fun _ => sameKey_mono hn hd⟩⟩
  · exact .of_forall fun n => ⟨fun hn => ⟨n, hn⟩, fun hk => absurd hk h⟩

namespace Closed

variable {w v : World} {S : List Ref}

theorem mem_of_parts (hS : w.Closed S) {r c : Ref} (hr : r ∈ S) (h : Relation.ReflTransGen w.Part r c) :
    c ∈ S := by
  induction h with
  | refl => exact hr
  | tail _ hc ih => exact hS.parts _ ih _ hc

theorem item (hS : w.Closed S) {r c : Ref} {items : List Ref} (hr : r ∈ S)
    (hb : w.body r = .sequence items) (hc : c ∈ items) : c ∈ S :=
  hS.parts r hr c (.inl (.item (by simp only [items?, hb]) hc))

theorem member (hS : w.Closed S) {r c : Ref} {items : List Ref} (hr : r ∈ S)
    (hb : w.body r = .members items) (hc : c ∈ items) : c ∈ S :=
  hS.parts r hr c (.inr (.member hb hc))

theorem key (hS : w.Closed S) {r : Ref} {e : Ref × Ref} {entries : List (Ref × Ref)} (hr : r ∈ S)
    (hb : w.body r = .mapping entries) (he : e ∈ entries) : e.1 ∈ S :=
  hS.parts r hr e.1 (.inr (.key (v := e.2) hb he))

theorem value (hS : w.Closed S) {r : Ref} {e : Ref × Ref} {entries : List (Ref × Ref)} (hr : r ∈ S)
    (hb : w.body r = .mapping entries) (he : e ∈ entries) : e.2 ∈ S :=
  hS.parts r hr e.2 (.inl (.value (k := e.1) hb he))

theorem sameKey_grows (hS : w.Closed S) (h : w.Grows v) (depth : Nat) {a b : Ref} (ha : a ∈ S)
    (hb : b ∈ S) : v.sameKey depth a b = w.sameKey depth a b := by
  induction depth generalizing a b with
  | zero => rfl
  | succ depth ih =>
      simp only [sameKey, h.body (hS.has a ha), h.body (hS.has b hb),
        h.isInstance (hS.has a ha), h.isInstance (hS.has b hb)]
      congr 1
      split <;> try rfl
      · rename_i xs ys hx hy
        congr 1
        refine Bool.eq_iff_iff.mpr ?_
        simp only [List.all_eq_true]
        refine forall₂_congr fun p hp => ?_
        have hp := List.of_mem_zip hp
        rw [ih (hS.item ha hx hp.1) (hS.item hb hy hp.2)]
      · rename_i xs ys hx hy
        congr 1
        refine Bool.eq_iff_iff.mpr ?_
        simp only [List.all_eq_true, List.any_eq_true]
        refine forall₂_congr fun x hxm => exists_congr fun y => and_congr_right fun hym => ?_
        rw [ih (hS.member ha hx hxm) (hS.member hb hy hym)]

end Closed

end Introspect.World
