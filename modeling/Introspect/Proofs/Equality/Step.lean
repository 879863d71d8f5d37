import Introspect.Proofs.Equality.Plan
import Introspect.Proofs.Pairs
/-!
One step of a comparison on a graph of references: it settles at once, or carries out the plan for the
children of a pair that is new.
-/
namespace Introspect.Equality

open World

/-- References that are compared without running code that has a choice: the classes of objects exist
and overload no equality, their conversions are pure and answer plain values, reading what they store
settles, and objects of one class hold their fields alike. -/
structure Graph (w : World) (S : List Ref) : Prop extends w.Closed S where
  alive : ∀ r ∈ S, isValueObject w r = true → w.isAlive (w.classOf r) = true
  noEquality : ∀ r ∈ S, isValueObject w r = true → (w.overloads (w.classOf r)).equality = false
  forms : ∀ r ∈ S, hasForm w r = true → ∃ x text, FormIs w r x text
  storage : ∀ r ∈ S, w.isObject r = true → hasForm w r = false →
    ∃ pairs, w.Settles (fields r) (.ok pairs)
  layout : ∀ a ∈ S, ∀ b ∈ S, w.classOf a = w.classOf b → w.isObject a = w.isObject b

/-- How a comparison goes on: it is settled, or the children are compared by a plan. -/
inductive Outcome where
  | settled (answer : Except Fault Bool)
  | visit (plan : Plan)

section Pure

variable (w : World)

noncomputable def valuePairs (xs ys : List (Ref × Ref)) : List (Option (Ref × Ref)) :=
  xs.map fun e => (w.entryFor? e.1 ys).map (e.2, ·.2)

def fieldPairs (xs ys : List (String × Ref)) : List (Option (Ref × Ref)) :=
  xs.map fun e => (ys.lookup e.1).map (e.2, ·)

noncomputable def objectPlan (a b : Ref) : Plan :=
  if w.classOf a ≠ w.classOf b then .done false
  else if (w.storage a).length ≠ (w.storage b).length then .done false
  else .all (fieldPairs (w.storage a) (w.storage b))

noncomputable def contentPlan (kind : RefType) (a b : Ref) : Plan :=
  match kind, w.body a, w.body b with
  | .scalar, .box x _, .box y _ => .all [some (x, y)]
  | .hash, .mapping xs, .mapping ys =>
    if xs.length ≠ ys.length then .done false else .all (valuePairs w xs ys)
  | .hash, _, _ => objectPlan w a b
  | .array, _, _ =>
    match w.items? a, w.items? b with
    | some xs, some ys =>
      if xs.length ≠ ys.length then .done false else .all ((xs.zip ys).map some)
    | _, _ => objectPlan w a b
  | .set, .members xs, .members ys =>
    if xs.length ≠ ys.length then .done false else .sets xs ys
  | _, _, _ => .done false

noncomputable def structural (a b : Ref) : Outcome :=
  match w.refType? a, w.refType? b with
  | some kind, some kind' =>
    if kind ≠ kind' then .settled (.ok false) else .visit (contentPlan w kind a b)
  | _, _ => .settled (.ok false)

noncomputable def outcome (a b : Ref) : Outcome :=
  if a = b then .settled (.ok true)
  else if hasForm w a && hasForm w b then .settled (w.answer (compareForms a b))
  else if hasForm w a || hasForm w b then .settled (.ok false)
  else structural w a b

/-- A comparison that does not need the world any more. -/
abbrev Recall := StateT Seen (Except Fault)

/-- Carries out the outcome for a pair. A pair that was seen before counts as equal. -/
def Outcome.run (recur : Ref → Ref → Recall Bool) (pair : Ref × Ref) : Outcome → Recall Bool
  | .settled answer => liftM answer
  | .visit plan => do
    if (← get).contains pair then return true
    modify (pair :: ·)
    plan.run recur

theorem Outcome.run_visit_of_mem {recur : Ref → Ref → Recall Bool} {plan : Plan} {pair : Ref × Ref}
    {seen : Seen} (h : pair ∈ seen) : (visit plan).run recur pair seen = .ok (true, seen) := by
  change (if List.contains seen pair then _ else _ : Recall Bool) seen = _
  rw [if_pos (List.contains_iff_mem.mpr h)]
  rfl

theorem Outcome.run_visit_of_not_mem {recur : Ref → Ref → Recall Bool} {plan : Plan} {pair : Ref × Ref}
    {seen : Seen} (h : pair ∉ seen) :
    (visit plan).run recur pair seen = plan.run recur (pair :: seen) := by
  change (if List.contains seen pair then _ else _ : Recall Bool) seen = _
  rw [if_neg fun hc => h (List.contains_iff_mem.mp hc)]
  rfl

noncomputable def step (recur : Ref → Ref → Recall Bool) (a b : Ref) : Recall Bool :=
  (outcome w a b).run recur (a, b)

end Pure

variable {w : World} {S : List Ref}

/-! ## Worlds that answer for the graph -/

/-- A world in which everything that the comparison of the graph asks for has settled. -/
structure Ready (w : World) (S : List Ref) (b : World) : Prop where
  grows : w.Grows b
  keys : ∀ x ∈ S, ∀ y ∈ S, b.sameKey b.nesting x y = true ↔ w.SameKey x y
  forms : ∀ x ∈ S, ∀ y ∈ S, hasForm w x = true → hasForm w y = true →
    b.Steady (compareForms x y) (w.answer (compareForms x y))
  storage : ∀ x ∈ S, w.isObject x = true → hasForm w x = false →
    b.Steady (fields x) (.ok (w.storage x))

theorem Graph.settles_forms (hG : Graph w S) {x y : Ref} (hx : x ∈ S) (hy : y ∈ S)
    (hfx : hasForm w x = true) (hfy : hasForm w y = true) :
    w.Settles (compareForms x y) (w.answer (compareForms x y)) := by
  obtain ⟨_, _, hx'⟩ := hG.forms x hx hfx
  obtain ⟨_, _, hy'⟩ := hG.forms y hy hfy
  exact settles_answer ⟨_, settles_compareForms (hG.has x hx) (hG.has y hy) hx' hy'⟩

theorem Graph.settles_storage (hG : Graph w S) {x : Ref} (hx : x ∈ S) (ho : w.isObject x = true)
    (hf : hasForm w x = false) : w.Settles (fields x) (.ok (w.storage x)) := by
  obtain ⟨pairs, hp⟩ := hG.storage x hx ho hf
  rw [storage_eq hp]
  exact hp

theorem Ready.mono {t v : World} (ht : Ready w S t) (hG : Graph w S) (hv : t.Leads v) : Ready w S v where
  grows := ht.grows.trans hv.grows
  keys x hx y hy := by
    rw [hv.nesting, hG.sameKey_grows (ht.grows.trans hv.grows) t.nesting hx hy,
      ← hG.sameKey_grows ht.grows t.nesting hx hy]
    exact ht.keys x hx y hy
  forms x hx y hy hfx hfy := (ht.forms x hx y hy hfx hfy).mono hv
  storage x hx ho hf := (ht.storage x hx ho hf).mono hv

theorem Graph.eventually_ready (hG : Graph w S) : ∀ᶠ n in Filter.atTop, Ready w S (w.limited n) := by
  have hkeys : ∀ᶠ n in Filter.atTop, ∀ x ∈ S, ∀ y ∈ S,
      (w.limited n).sameKey n x y = true ↔ w.SameKey x y :=
    eventually_forall_mem fun x hx => eventually_forall_mem fun y hy =>
      (SameKey.eventually_iff w x y).mono fun n h => by
        rw [hG.sameKey_grows (w.grows_limited n) n hx hy, h]
  have hforms : ∀ᶠ n in Filter.atTop, ∀ x ∈ S, ∀ y ∈ S, hasForm w x = true → hasForm w y = true →
      (w.limited n).Steady (compareForms x y) (w.answer (compareForms x y)) :=
    eventually_forall_mem fun x hx => eventually_forall_mem fun y hy =>
      Filter.eventually_imp_distrib_left.mpr fun hfx =>
        Filter.eventually_imp_distrib_left.mpr fun hfy => hG.settles_forms hx hy hfx hfy
  have hstorage : ∀ᶠ n in Filter.atTop, ∀ x ∈ S, w.isObject x = true → hasForm w x = false →
      (w.limited n).Steady (fields x) (.ok (w.storage x)) :=
    eventually_forall_mem fun x hx =>
      Filter.eventually_imp_distrib_left.mpr fun ho =>
        Filter.eventually_imp_distrib_left.mpr fun hf => hG.settles_storage hx ho hf
  filter_upwards [hkeys, hforms, hstorage] with n h₁ h₂ h₃
  exact ⟨w.grows_limited n, h₁, h₂, h₃⟩

/-! ## What a plan asks for -/

theorem body_or_isObject_of_hash {r : Ref} (h : w.refType? r = some .hash) :
    (∃ entries, w.body r = .mapping entries) ∨ w.isObject r = true := by
  unfold refType? at h
  unfold isObject
  cases hb : w.body r <;> simp_all

theorem items_or_isObject_of_array {r : Ref} (h : w.refType? r = some .array) :
    (∃ items, w.items? r = some items) ∨ w.isObject r = true := by
  unfold refType? at h
  unfold isObject items?
  cases hb : w.body r <;> simp_all

theorem isObject_of_hash {a b : Ref} (ha : w.refType? a = some .hash) (hb : w.refType? b = some .hash)
    (h : ∀ xs ys, w.body a = .mapping xs → w.body b = .mapping ys → False) :
    w.isObject a = true ∨ w.isObject b = true := by
  rcases body_or_isObject_of_hash ha with ⟨xs, hxa⟩ | ho
  · exact .inr ((body_or_isObject_of_hash hb).resolve_left fun ⟨ys, hxb⟩ => h xs ys hxa hxb)
  · exact .inl ho

theorem isObject_of_array {a b : Ref} (ha : w.refType? a = some .array)
    (hb : w.refType? b = some .array)
    (h : ∀ xs ys, w.items? a = some xs → w.items? b = some ys → False) :
    w.isObject a = true ∨ w.isObject b = true := by
  rcases items_or_isObject_of_array ha with ⟨xs, hxa⟩ | ho
  · exact .inr ((items_or_isObject_of_array hb).resolve_left fun ⟨ys, hxb⟩ => h xs ys hxa hxb)
  · exact .inl ho

theorem contentPlan_of_hash {a b : Ref}
    (h : ∀ xs ys, w.body a = .mapping xs → w.body b = .mapping ys → False) :
    contentPlan w .hash a b = objectPlan w a b := by
  unfold contentPlan
  split <;> simp_all

theorem contentPlan_of_array {a b : Ref}
    (h : ∀ xs ys, w.items? a = some xs → w.items? b = some ys → False) :
    contentPlan w .array a b = objectPlan w a b := by
  unfold contentPlan
  split <;> simp_all

theorem contentPlan_of_others {kind : RefType} {a b : Ref} (hhash : kind = .hash → False)
    (harray : kind = .array → False)
    (hbox : ∀ x s y t, kind = .scalar → w.body a = .box x s → w.body b = .box y t → False)
    (hset : ∀ xs ys, kind = .set → w.body a = .members xs → w.body b = .members ys → False) :
    contentPlan w kind a b = .done false := by
  unfold contentPlan
  split
  · exact (hbox _ _ _ _ rfl ‹_› ‹_›).elim
  · exact (hhash rfl).elim
  · exact (hhash rfl).elim
  · exact (harray rfl).elim
  · exact (hset _ _ rfl ‹_› ‹_›).elim
  · rfl

theorem mem_of_entryFor? {key : Ref} {e : Ref × Ref} {entries : List (Ref × Ref)}
    (h : w.entryFor? key entries = some e) : e ∈ entries :=
  List.mem_of_find?_eq_some h

theorem asks_objectPlan {a b : Ref} (ho : w.isObject a = true ∨ w.isObject b = true)
    (hl : w.classOf a = w.classOf b → w.isObject a = w.isObject b) :
    (objectPlan w a b).Asks fun x y => w.Part a x ∧ w.Part b y := by
  unfold objectPlan
  split
  · trivial
  · rename_i hc
    have heq := hl (not_not.mp hc)
    have ha : w.isObject a = true := ho.elim id (heq ▸ ·)
    have hb : w.isObject b = true := heq ▸ ha
    split
    · trivial
    · refine .all fun p hp q hq => ?_
      obtain ⟨e, he, rfl⟩ := List.mem_map.mp hp
      obtain ⟨y, hy, rfl⟩ := Option.map_eq_some_iff.mp hq
      exact ⟨.inl (.field ha (n := e.1) he), .inl (.field hb (Pairs.mem_of_lookup hy))⟩

theorem asks_contentPlan {kind : RefType} {a b : Ref} (ha : w.refType? a = some kind)
    (hb : w.refType? b = some kind) (hl : w.classOf a = w.classOf b → w.isObject a = w.isObject b) :
    (contentPlan w kind a b).Asks fun x y => w.Part a x ∧ w.Part b y := by
  unfold contentPlan
  split
  · rename_i hxa hxb
    refine .all fun p hp q hq => ?_
    cases List.mem_singleton.mp hp
    cases hq
    exact ⟨.inl (.content hxa), .inl (.content hxb)⟩
  · rename_i xs ys hxa hxb
    split
    · trivial
    · refine .all fun p hp q hq => ?_
      obtain ⟨e, he, rfl⟩ := List.mem_map.mp hp
      obtain ⟨e', hy, rfl⟩ := Option.map_eq_some_iff.mp hq
      exact ⟨.inl (.value (k := e.1) hxa he), .inl (.value (k := e'.1) hxb (mem_of_entryFor? hy))⟩
  · rename_i hmap
    exact asks_objectPlan (isObject_of_hash ha hb hmap) hl
  · split
    · rename_i xs ys hxa hxb
      split
      · trivial
      · refine .all fun p hp q hq => ?_
        obtain ⟨e, he, rfl⟩ := List.mem_map.mp hp
        cases hq
        have hmem := List.of_mem_zip he
        exact ⟨.inl (.item hxa hmem.1), .inl (.item hxb hmem.2)⟩
    · rename_i hitems
      exact asks_objectPlan (isObject_of_array ha hb hitems) hl
  · rename_i xs ys hxa hxb
    split
    · trivial
    · exact .sets fun x hx y hy => ⟨.inr (.member hxa hx), .inr (.member hxb hy)⟩
  · trivial

/-- The plan for two references asks for their parts. -/
theorem asks_outcome {a b : Ref} (hl : w.classOf a = w.classOf b → w.isObject a = w.isObject b) {plan : Plan}
    (ho : outcome w a b = .visit plan) : plan.Asks fun x y => w.Part a x ∧ w.Part b y := by
  unfold outcome structural at ho
  split at ho
  · cases ho
  split at ho
  · cases ho
  split at ho
  · cases ho
  split at ho
  · rename_i hka hkb
    split at ho
    · cases ho
    · rename_i hk
      cases not_not.mp hk
      cases ho
      exact asks_contentPlan hka hkb hl
  · cases ho

end Introspect.Equality
