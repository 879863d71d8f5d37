import Mathlib.Data.Finset.Prod
import Mathlib.Data.List.Forall2
import Introspect.Proofs.Equality.Data
import Introspect.Proofs.Equality.Simulation
import Introspect.Proofs.Reflect.Lookup
/-!
Deep equality decides bisimilarity. Pairs that a comparison has begun with stay in what it has seen; if
it answers that two references are equal, what it has seen is a bisimulation.
-/
namespace Introspect.Equality

open World

/-- Two references are the same, or their forms are equal, or they have one shape and the relation holds
of their children. -/
inductive Alike (w : World) (R : Ref → Ref → Prop) (a b : Ref) : Prop where
  | same : a = b → Alike w R a b
  | forms : hasForm w a = true → hasForm w b = true → w.Settles (compareForms a b) (.ok true) →
      Alike w R a b
  | boxes {x y s t} : w.body a = .box x s → w.body b = .box y t → R x y → Alike w R a b
  | sequences {xs ys} : w.items? a = some xs → w.items? b = some ys → List.Forall₂ R xs ys →
      Alike w R a b
  | mappings {xs ys} : w.body a = .mapping xs → w.body b = .mapping ys → xs.length = ys.length →
      (∀ e ∈ xs, ∃ e', w.entryFor? e.1 ys = some e' ∧ R e.2 e'.2) → Alike w R a b
  | objects {kind} : hasForm w a = false → hasForm w b = false → w.isObject a = true →
      w.classOf a = w.classOf b → w.refType? a = some kind → w.refType? b = some kind →
      kind = .hash ∨ kind = .array → (w.storage a).length = (w.storage b).length →
      (∀ e ∈ w.storage a, ∃ y, (w.storage b).lookup e.1 = some y ∧ R e.2 y) → Alike w R a b

/-- Some relation holds of the two references, and of alike references alone. -/
def Bisimilar (w : World) (a b : Ref) : Prop :=
  ∃ R : Ref → Ref → Prop, R a b ∧ ∀ x y, R x y → Alike w R x y

/-- Every pair has a partner that the relation holds of. -/
def AllIn (R : Ref → Ref → Prop) (pairs : List (Option (Ref × Ref))) : Prop :=
  ∀ p ∈ pairs, ∃ q, p = some q ∧ R q.1 q.2

variable {w : World} {S : List Ref} {R : Ref → Ref → Prop} {a b : Ref}

theorem Alike.mono {Q : Ref → Ref → Prop} (hRQ : ∀ x y, R x y → Q x y) (h : Alike w R a b) :
    Alike w Q a b := by
  cases h with
  | same h => exact .same h
  | forms ha hb h => exact .forms ha hb h
  | boxes ha hb h => exact .boxes ha hb (hRQ _ _ h)
  | sequences ha hb h => exact .sequences ha hb (h.imp hRQ)
  | mappings ha hb hl h =>
      exact .mappings ha hb hl fun e he => (h e he).imp fun _ he' => he'.imp_right (hRQ _ _)
  | objects hfa hfb ho hc ha hb hk hl h =>
      exact .objects hfa hfb ho hc ha hb hk hl fun e he => (h e he).imp fun _ hy => hy.imp_right (hRQ _ _)

theorem not_allIn_none : ¬ AllIn R [none] := fun h => by
  obtain ⟨q, hq, -⟩ := h none List.mem_cons_self
  cases hq

theorem allIn_zip {xs ys : List Ref} (hl : xs.length = ys.length) :
    AllIn R ((xs.zip ys).map some) ↔ List.Forall₂ R xs ys := by
  simp only [AllIn, List.forall_mem_map, Option.some.injEq, exists_eq_left', List.forall₂_iff_zip, hl,
    true_and, Prod.forall]

theorem allIn_valuePairs {xs ys : List (Ref × Ref)} :
    AllIn R (valuePairs w xs ys) ↔ ∀ e ∈ xs, ∃ e', w.entryFor? e.1 ys = some e' ∧ R e.2 e'.2 := by
  simp only [AllIn, valuePairs, List.forall_mem_map, Option.map_eq_some_iff]
  refine forall₂_congr fun e _ => ⟨?_, ?_⟩
  · rintro ⟨q, ⟨e', he', rfl⟩, hq⟩
    exact ⟨e', he', hq⟩
  · rintro ⟨e', he', hq⟩
    exact ⟨_, ⟨e', he', rfl⟩, hq⟩

theorem allIn_fieldPairs {xs ys : List (String × Ref)} :
    AllIn R (fieldPairs xs ys) ↔ ∀ e ∈ xs, ∃ y, ys.lookup e.1 = some y ∧ R e.2 y := by
  simp only [AllIn, fieldPairs, List.forall_mem_map, Option.map_eq_some_iff]
  refine forall₂_congr fun e _ => ⟨?_, ?_⟩
  · rintro ⟨q, ⟨y, hy, rfl⟩, hq⟩
    exact ⟨y, hy, hq⟩
  · rintro ⟨y, hy, hq⟩
    exact ⟨_, ⟨y, hy, rfl⟩, hq⟩

theorem isObject_of_box {r x : Ref} {t : Bool} (h : w.body r = .box x t) : w.isObject r = false := by
  simp only [isObject, h]

theorem isObject_of_mapping {r : Ref} {entries : List (Ref × Ref)} (h : w.body r = .mapping entries) :
    w.isObject r = false := by
  simp only [isObject, h]

theorem isObject_of_items {r : Ref} {items : List Ref} (h : w.items? r = some items) :
    w.isObject r = false := by
  unfold items? at h
  unfold isObject
  cases hb : w.body r <;> simp_all

theorem alike_objects {kind : RefType} (hne : a ≠ b) (hfa : hasForm w a = false)
    (hfb : hasForm w b = false) (hka : w.refType? a = some kind) (hkb : w.refType? b = some kind)
    (hk : kind = .hash ∨ kind = .array) (ho : w.isObject a = true ∨ w.isObject b = true)
    (hl : w.classOf a = w.classOf b → w.isObject a = w.isObject b) :
    Alike w R a b ↔ w.classOf a = w.classOf b ∧ (w.storage a).length = (w.storage b).length ∧
      AllIn R (fieldPairs (w.storage a) (w.storage b)) := by
  rw [allIn_fieldPairs]
  constructor
  · intro h
    cases h with
    | same h => exact absurd h hne
    | forms ha _ _ => rw [ha] at hfa; cases hfa
    | boxes ha hb _ => rw [isObject_of_box ha, isObject_of_box hb] at ho; simp at ho
    | sequences ha hb _ => rw [isObject_of_items ha, isObject_of_items hb] at ho; simp at ho
    | mappings ha hb _ _ => rw [isObject_of_mapping ha, isObject_of_mapping hb] at ho; simp at ho
    | objects _ _ _ hc _ _ _ hlen h => exact ⟨hc, hlen, h⟩
  · rintro ⟨hc, hlen, h⟩
    exact .objects hfa hfb (ho.elim id fun hb => hl hc ▸ hb) hc hka hkb hk hlen h

theorem objectPlan_cases {kind : RefType} (hne : a ≠ b) (hfa : hasForm w a = false)
    (hfb : hasForm w b = false) (hka : w.refType? a = some kind) (hkb : w.refType? b = some kind)
    (hk : kind = .hash ∨ kind = .array) (ho : w.isObject a = true ∨ w.isObject b = true)
    (hl : w.classOf a = w.classOf b → w.isObject a = w.isObject b) :
    ∃ pairs, objectPlan w a b = .all pairs ∧ ∀ R, Alike w R a b ↔ AllIn R pairs := by
  have halike R := alike_objects (R := R) hne hfa hfb hka hkb hk ho hl
  unfold objectPlan
  split
  · rename_i hc
    exact ⟨[none], rfl, fun R => by simp only [halike, hc, false_and, not_allIn_none]⟩
  · rename_i hc
    split
    · rename_i hlen
      exact ⟨[none], rfl, fun R => by simp only [halike, hlen, false_and, and_false, not_allIn_none]⟩
    · rename_i hlen
      exact ⟨_, rfl, fun R => by
        rw [halike, and_iff_right (not_not.mp hc), and_iff_right (not_not.mp hlen)]⟩

theorem alike_boxes {x y : Ref} {s t : Bool} (hne : a ≠ b) (hfa : hasForm w a = false)
    (ha : w.body a = .box x s) (hb : w.body b = .box y t) : Alike w R a b ↔ R x y := by
  constructor
  · intro h
    cases h with
    | same h => exact absurd h hne
    | forms ha' _ _ => rw [ha'] at hfa; cases hfa
    | boxes ha' hb' h => rw [ha] at ha'; rw [hb] at hb'; cases ha'; cases hb'; exact h
    | sequences ha' _ _ => simp only [items?, ha] at ha'; cases ha'
    | mappings ha' _ _ _ => rw [ha] at ha'; cases ha'
    | objects _ _ ho => rw [isObject_of_box ha] at ho; cases ho
  · exact .boxes ha hb

theorem alike_sequences {xs ys : List Ref} (hne : a ≠ b) (hfa : hasForm w a = false)
    (ha : w.items? a = some xs) (hb : w.items? b = some ys) :
    Alike w R a b ↔ List.Forall₂ R xs ys := by
  constructor
  · intro h
    cases h with
    | same h => exact absurd h hne
    | forms ha' _ _ => rw [ha'] at hfa; cases hfa
    | boxes ha' _ _ => simp only [items?, ha'] at ha; cases ha
    | sequences ha' hb' h => rw [ha] at ha'; rw [hb] at hb'; cases ha'; cases hb'; exact h
    | mappings ha' _ _ _ => simp only [items?, ha'] at ha; cases ha
    | objects _ _ ho => rw [isObject_of_items ha] at ho; cases ho
  · exact .sequences ha hb

theorem alike_mappings {xs ys : List (Ref × Ref)} (hne : a ≠ b) (hfa : hasForm w a = false)
    (ha : w.body a = .mapping xs) (hb : w.body b = .mapping ys) :
    Alike w R a b ↔ xs.length = ys.length ∧ AllIn R (valuePairs w xs ys) := by
  rw [allIn_valuePairs]
  constructor
  · intro h
    cases h with
    | same h => exact absurd h hne
    | forms ha' _ _ => rw [ha'] at hfa; cases hfa
    | boxes ha' _ _ => rw [ha] at ha'; cases ha'
    | sequences ha' _ _ => simp only [items?, ha] at ha'; cases ha'
    | mappings ha' hb' hl h => rw [ha] at ha'; rw [hb] at hb'; cases ha'; cases hb'; exact ⟨hl, h⟩
    | objects _ _ ho => rw [isObject_of_mapping ha] at ho; cases ho
  · rintro ⟨hl, h⟩
    exact .mappings ha hb hl h

theorem refType?_of_items {r : Ref} {items : List Ref} (h : w.items? r = some items) :
    w.refType? r = some .array := by
  unfold items? at h
  unfold refType?
  cases hb : w.body r <;> simp_all

theorem not_alike_of_others {kind : RefType} (hne : a ≠ b) (hfa : hasForm w a = false)
    (hka : w.refType? a = some kind) (hhash : kind = .hash → False) (harray : kind = .array → False)
    (hbox : ∀ x s y t, kind = .scalar → w.body a = .box x s → w.body b = .box y t → False) :
    ¬ Alike w R a b := by
  intro h
  cases h with
  | same h => exact hne h
  | forms ha _ _ => rw [ha] at hfa; cases hfa
  | boxes ha hb _ =>
      simp only [refType?, ha] at hka
      cases hka
      exact hbox _ _ _ _ rfl ha hb
  | sequences ha _ _ => rw [refType?_of_items ha] at hka; cases hka; exact harray rfl
  | mappings ha _ _ _ => simp only [refType?, ha] at hka; cases hka; exact hhash rfl
  | objects _ _ _ _ ha _ hk => rw [ha] at hka; cases hka; exact hk.elim hhash harray

/-- The plan for two references asks for the children that make them alike. -/
theorem contentPlan_cases {kind : RefType} (hne : a ≠ b) (hfa : hasForm w a = false)
    (hfb : hasForm w b = false) (hka : w.refType? a = some kind) (hkb : w.refType? b = some kind)
    (hl : w.classOf a = w.classOf b → w.isObject a = w.isObject b)
    (hset : w.refType? a ≠ some .set) :
    ∃ pairs, contentPlan w kind a b = .all pairs ∧ ∀ R, Alike w R a b ↔ AllIn R pairs := by
  unfold contentPlan
  split
  · rename_i x _ y _ ha hb
    exact ⟨_, rfl, fun R => by simp [alike_boxes hne hfa ha hb, AllIn]⟩
  · rename_i xs ys ha hb
    have halike R := alike_mappings (R := R) hne hfa ha hb
    split
    · rename_i hlen
      exact ⟨[none], rfl, fun R => by simp only [halike, hlen, false_and, not_allIn_none]⟩
    · rename_i hlen
      exact ⟨_, rfl, fun R => by rw [halike, and_iff_right (not_not.mp hlen)]⟩
  · rename_i hmap
    exact objectPlan_cases hne hfa hfb hka hkb (.inl rfl) (isObject_of_hash hka hkb hmap) hl
  · split
    · rename_i xs ys ha hb
      have halike R := alike_sequences (R := R) hne hfa ha hb
      split
      · rename_i hlen
        refine ⟨[none], rfl, fun R => ?_⟩
        simp only [halike, not_allIn_none, iff_false]
        exact fun h => hlen h.length_eq
      · rename_i hlen
        exact ⟨_, rfl, fun R => by rw [halike, allIn_zip (not_not.mp hlen)]⟩
    · rename_i hitems
      exact objectPlan_cases hne hfa hfb hka hkb (.inr rfl) (isObject_of_array hka hkb hitems) hl
  · rename_i ha _
    exact absurd (by simp only [refType?, ha]) hset
  · rename_i hhash harray hbox _ _
    exact ⟨[none], rfl, fun R => by
      simp only [not_alike_of_others hne hfa hka hhash harray hbox, not_allIn_none]⟩

theorem hasForm_of_box {r x : Ref} {t : Bool} (h : w.body r = .box x t) : hasForm w r = false := by
  simp only [hasForm, converts, isPlain, atom?, isValueObject, h]; rfl

theorem hasForm_of_items {r : Ref} {items : List Ref} (h : w.items? r = some items) :
    hasForm w r = false := by
  unfold items? at h
  simp only [hasForm, converts, isPlain, atom?, isValueObject]
  cases hb : w.body r <;> simp_all

theorem hasForm_of_mapping {r : Ref} {entries : List (Ref × Ref)} (h : w.body r = .mapping entries) :
    hasForm w r = false := by
  simp only [hasForm, converts, isPlain, atom?, isValueObject, h]; rfl

theorem alike_of_hasForm (hne : a ≠ b) (hf : hasForm w a = true ∨ hasForm w b = true) :
    Alike w R a b ↔
      hasForm w a = true ∧ hasForm w b = true ∧ w.Settles (compareForms a b) (.ok true) := by
  constructor
  · intro h
    cases h with
    | same h => exact absurd h hne
    | forms ha hb h => exact ⟨ha, hb, h⟩
    | boxes ha hb _ => rw [hasForm_of_box ha, hasForm_of_box hb] at hf; simp at hf
    | sequences ha hb _ => rw [hasForm_of_items ha, hasForm_of_items hb] at hf; simp at hf
    | mappings ha hb _ _ => rw [hasForm_of_mapping ha, hasForm_of_mapping hb] at hf; simp at hf
    | objects hfa hfb => rw [hfa, hfb] at hf; simp at hf
  · rintro ⟨ha, hb, h⟩
    exact .forms ha hb h

theorem not_alike_of_refType? (hne : a ≠ b) (hfa : hasForm w a = false)
    (hk : ∀ kind, w.refType? a = some kind → w.refType? b = some kind → False) : ¬ Alike w R a b := by
  intro h
  cases h with
  | same h => exact hne h
  | forms ha _ _ => rw [ha] at hfa; cases hfa
  | boxes ha hb _ => exact hk .scalar (by simp only [refType?, ha]) (by simp only [refType?, hb])
  | sequences ha hb _ => exact hk .array (refType?_of_items ha) (refType?_of_items hb)
  | mappings ha hb _ _ => exact hk .hash (by simp only [refType?, ha]) (by simp only [refType?, hb])
  | objects _ _ _ _ ha hb => exact hk _ ha hb

/-- Comparing two references without forms finds them of different shapes, or asks for the children that
make them alike. -/
theorem structural_cases (hG : Graph w S) (ha : a ∈ S) (hb : b ∈ S) (hset : w.refType? a ≠ some .set)
    (hne : a ≠ b) (hfa : hasForm w a = false) (hfb : hasForm w b = false) :
    (structural w a b = .settled (.ok false) ∧ ∀ R, ¬ Alike w R a b) ∨
      ∃ pairs, structural w a b = .visit (.all pairs) ∧
        (Plan.all pairs).Asks (fun x y => x ∈ S ∧ y ∈ S) ∧ ∀ R, Alike w R a b ↔ AllIn R pairs := by
  unfold structural
  split
  · rename_i kind kind' hka hkb
    split
    · rename_i hk
      refine .inl ⟨rfl, fun R => not_alike_of_refType? hne hfa fun k ha' hb' => ?_⟩
      rw [hka] at ha'
      rw [hkb] at hb'
      exact hk (Option.some.inj (ha'.trans hb'.symm))
    · rename_i hk
      cases not_not.mp hk
      have hl := hG.layout a ha b hb
      obtain ⟨pairs, hp, halike⟩ := contentPlan_cases hne hfa hfb hka hkb hl hset
      refine .inr ⟨pairs, by rw [hp], ?_, halike⟩
      rw [← hp]
      exact (asks_contentPlan hka hkb hl).mono fun x y h => ⟨hG.parts a ha x h.1, hG.parts b hb y h.2⟩
  · rename_i hnone
    exact .inl ⟨rfl, fun R => not_alike_of_refType? hne hfa fun k ha' hb' => hnone k k ha' hb'⟩

theorem outcome_cases (hG : Graph w S) (ha : a ∈ S) (hb : b ∈ S)
    (hset : w.refType? a ≠ some .set)
    (hraise : hasForm w a = true → hasForm w b = true → ∃ e, w.Settles (compareForms a b) (.ok e)) :
    (∃ e, outcome w a b = .settled (.ok e) ∧ ∀ R, Alike w R a b ↔ e = true) ∨
      ∃ pairs, outcome w a b = .visit (.all pairs) ∧ (Plan.all pairs).Asks (fun x y => x ∈ S ∧ y ∈ S) ∧
        ∀ R, Alike w R a b ↔ AllIn R pairs := by
  unfold outcome
  by_cases hne : a = b
  · rw [if_pos hne]
    exact .inl ⟨true, rfl, fun R => iff_of_true (.same hne) rfl⟩
  rw [if_neg hne]
  by_cases hforms : (hasForm w a && hasForm w b) = true
  · rw [if_pos hforms]
    rw [Bool.and_eq_true] at hforms
    obtain ⟨e, he⟩ := hraise hforms.1 hforms.2
    refine .inl ⟨e, by rw [he.answer_eq], fun R => ?_⟩
    rw [alike_of_hasForm hne (.inl hforms.1), and_iff_right hforms.1, and_iff_right hforms.2]
    exact ⟨fun h => by cases he.unique h; rfl, fun h => h ▸ he⟩
  rw [if_neg hforms]
  by_cases hform : (hasForm w a || hasForm w b) = true
  · rw [if_pos hform]
    rw [Bool.or_eq_true] at hform
    refine .inl ⟨false, rfl, fun R => iff_of_false (fun h => hforms ?_) Bool.false_ne_true⟩
    obtain ⟨hfa, hfb, -⟩ := (alike_of_hasForm hne hform).mp h
    rw [hfa, hfb]; rfl
  rw [if_neg hform]
  obtain ⟨hfa, hfb⟩ := Bool.or_eq_false_iff.mp (Bool.not_eq_true _ ▸ hform)
  rcases structural_cases hG ha hb hset hne hfa hfb with ⟨hs, hnot⟩ | hvisit
  · exact .inl ⟨false, hs, fun R => iff_of_false (hnot R) Bool.false_ne_true⟩
  · exact .inr hvisit

/-! ## What a comparison has seen -/

def unseen (S : List Ref) (seen : Seen) : Nat := ((S.toFinset ×ˢ S.toFinset) \ seen.toFinset).card

/-- The pair was seen, or is alike without regard to its children. -/
def Fine (w : World) (seen : Seen) (a b : Ref) : Prop := (a, b) ∈ seen ∨ ∀ R, Alike w R a b

/-- The pairs that were seen in between are alike as far as what was seen is. -/
def Justified (w : World) (seen seen' : Seen) : Prop :=
  ∀ p ∈ seen', p ∉ seen → Alike w (Fine w seen') p.1 p.2

/-- A comparison that began with some pairs seen ends with an answer and more of them. It justifies what
it has seen if it finds everything equal. -/
def Ends (w : World) (S : List Ref) (seen : Seen) (result : Except Fault (Bool × Seen))
    (equal : Seen → Prop) (unequal : Prop) : Prop :=
  ∃ e seen', result = .ok (e, seen') ∧ seen ⊆ seen' ∧ (∀ p ∈ seen', p.1 ∈ S ∧ p.2 ∈ S) ∧
    (e = true → Justified w seen seen' ∧ equal seen') ∧ (e = false → unequal)

variable {seen seen' seen'' : Seen}

theorem unseen_mono (h : seen ⊆ seen') : unseen S seen' ≤ unseen S seen :=
  Finset.card_le_card (Finset.sdiff_subset_sdiff (Finset.Subset.refl _) fun _ hp =>
    List.mem_toFinset.mpr (h (List.mem_toFinset.mp hp)))

theorem unseen_cons (ha : a ∈ S) (hb : b ∈ S) (h : (a, b) ∉ seen) :
    unseen S ((a, b) :: seen) < unseen S seen := by
  refine Finset.card_lt_card ⟨?_, fun hsub => ?_⟩
  · exact Finset.sdiff_subset_sdiff (Finset.Subset.refl _) (by simp)
  · have hmem : (a, b) ∈ (S.toFinset ×ˢ S.toFinset) \ seen.toFinset := by simp [ha, hb, h]
    simpa using hsub hmem

theorem Fine.mono (h : seen ⊆ seen') (hf : Fine w seen a b) : Fine w seen' a b :=
  hf.imp_left fun hm => h hm

theorem Justified.trans (h : Justified w seen seen') (hsub : seen' ⊆ seen'')
    (h' : Justified w seen' seen'') : Justified w seen seen'' := by
  intro p hp hn
  by_cases hm : p ∈ seen'
  · exact (h p hm hn).mono fun _ _ => Fine.mono hsub
  · exact h' p hp hm

theorem AllIn.cons {p : Ref × Ref} {rest : List (Option (Ref × Ref))} (hp : R p.1 p.2)
    (h : AllIn R rest) : AllIn R (some p :: rest) := by
  intro o ho
  rcases List.mem_cons.mp ho with rfl | ho
  · exact ⟨p, rfl, hp⟩
  · exact h o ho

theorem ends_run_all {recur : Ref → Ref → Recall Bool} {bound : Nat}
    (h : ∀ x ∈ S, ∀ y ∈ S, ∀ seen, (∀ p ∈ seen, p.1 ∈ S ∧ p.2 ∈ S) → unseen S seen < bound →
      Ends w S seen (recur x y seen) (Fine w · x y) (¬ Bisimilar w x y))
    {pairs : List (Option (Ref × Ref))} (hp : (Plan.all pairs).Asks fun x y => x ∈ S ∧ y ∈ S)
    (hseen : ∀ p ∈ seen, p.1 ∈ S ∧ p.2 ∈ S) (hbound : unseen S seen < bound) :
    Ends w S seen ((Plan.all pairs).run recur seen) (fun seen' => AllIn (Fine w seen') pairs)
      (¬ AllIn (Bisimilar w) pairs) := by
  induction pairs generalizing seen with
  | nil =>
      refine ⟨true, seen, rfl, fun _ hm => hm, hseen, fun _ => ⟨fun p hp hn => absurd hp hn, ?_⟩, ?_⟩
      · exact fun p hp => absurd hp List.not_mem_nil
      · exact fun hf => absurd hf (by decide)
  | cons o rest ih =>
      cases o with
      | none =>
          refine ⟨false, seen, rfl, fun _ hm => hm, hseen, fun hf => absurd hf (by decide), fun _ hall => ?_⟩
          obtain ⟨q, hq, -⟩ := hall none List.mem_cons_self
          cases hq
      | some q =>
          obtain ⟨x, y⟩ := q
          obtain ⟨⟨hx, hy⟩, hnext⟩ := hp
          obtain ⟨e, seen₁, he, hsub, hmem, htrue, hfalse⟩ := h x hx y hy seen hseen hbound
          have hrun : (Plan.all (some (x, y) :: rest)).run recur seen =
              if e then (Plan.all rest).run recur seen₁ else .ok (false, seen₁) := by
            rw [Plan.all, Plan.run_ask_of_ok he]
            cases e <;> rfl
          rw [hrun]
          cases e with
          | false =>
              refine ⟨false, seen₁, rfl, hsub, hmem, fun hf => absurd hf (by decide), fun _ hall => ?_⟩
              obtain ⟨q, hq, hbis⟩ := hall _ List.mem_cons_self
              cases hq
              exact hfalse rfl hbis
          | true =>
              obtain ⟨hjust, hfine⟩ := htrue rfl
              obtain ⟨e, seen₂, he, hsub', hmem', htrue', hfalse'⟩ :=
                ih (hnext true) hmem (Nat.lt_of_le_of_lt (unseen_mono hsub) hbound)
              refine ⟨e, seen₂, he, fun _ hm => hsub' (hsub hm), hmem', fun ht => ?_, fun hf hall => ?_⟩
              · -- What made the first pair fine still does: nothing that was seen is forgotten.
                obtain ⟨hjust', hall⟩ := htrue' ht
                exact ⟨hjust.trans hsub' hjust', hall.cons (hfine.mono hsub')⟩
              · exact hfalse' hf fun o ho => hall o (List.mem_cons_of_mem _ ho)

/-- The comparison of a pair that is seen for the first time ends well if its plan does. -/
theorem Ends.visit {pairs : List (Option (Ref × Ref))} {result : Except Fault (Bool × Seen)}
    (halike : ∀ R, Alike w R a b ↔ AllIn R pairs)
    (h : Ends w S ((a, b) :: seen) result (fun seen' => AllIn (Fine w seen') pairs)
      (¬ AllIn (Bisimilar w) pairs)) :
    Ends w S seen result (Fine w · a b) (¬ Bisimilar w a b) := by
  obtain ⟨e, seen', he, hsub, hmem, htrue, hfalse⟩ := h
  have hab : (a, b) ∈ seen' := hsub List.mem_cons_self
  refine ⟨e, seen', he, fun _ hm => hsub (List.mem_cons_of_mem _ hm), hmem, fun ht => ?_, fun hf hbis => ?_⟩
  · obtain ⟨hjust, hall⟩ := htrue ht
    refine ⟨fun p hp hn => ?_, .inl hab⟩
    by_cases hpab : p = (a, b)
    · subst hpab
      exact (halike _).mpr hall
    · exact hjust p hp fun hm => (List.mem_cons.mp hm).elim hpab hn
  · obtain ⟨R, hR, hstep⟩ := hbis
    refine hfalse hf fun o ho => ?_
    obtain ⟨q, hq, hRq⟩ := (halike R).mp (hstep a b hR) o ho
    exact ⟨q, hq, R, hRq, hstep⟩

/-- Every comparison of two references of the graph ends well if it may nest deeper than there are
pairs to see. -/
theorem ends_remembering (hG : Graph w S) (hset : ∀ r ∈ S, w.refType? r ≠ some .set)
    (hraise : ∀ x ∈ S, ∀ y ∈ S, hasForm w x = true → hasForm w y = true →
      ∃ e, w.Settles (compareForms x y) (.ok e))
    (depth : Nat) (ha : a ∈ S) (hb : b ∈ S) (hseen : ∀ p ∈ seen, p.1 ∈ S ∧ p.2 ∈ S)
    (hdepth : unseen S seen < depth) :
    Ends w S seen (remembering w depth a b seen) (Fine w · a b) (¬ Bisimilar w a b) := by
  -- A pair that asks for others has not been seen, so fewer pairs are unseen where those are compared.
  induction depth generalizing a b seen with
  | zero => exact absurd hdepth (Nat.not_lt_zero _)
  | succ depth ih =>
      change Ends w S seen ((outcome w a b).run (remembering w depth) (a, b) seen) _ _
      rcases outcome_cases hG ha hb (hset a ha) (hraise a ha b hb) with
        ⟨e, ho, halike⟩ | ⟨pairs, ho, hasks, halike⟩
      · rw [ho]
        refine ⟨e, seen, rfl, fun _ hm => hm, hseen, fun ht => ?_, fun hf ⟨R, hR, hbis⟩ => ?_⟩
        · exact ⟨fun p hp hn => absurd hp hn, .inr fun R => (halike R).mpr ht⟩
        · exact absurd ((halike R).mp (hbis a b hR)) (by rw [hf]; decide)
      · rw [ho]
        by_cases hmem : (a, b) ∈ seen
        · rw [Outcome.run_visit_of_mem hmem]
          refine ⟨true, seen, rfl, fun _ hm => hm, hseen, fun _ => ?_, fun hf => absurd hf (by decide)⟩
          exact ⟨fun p hp hn => absurd hp hn, .inl hmem⟩
        · rw [Outcome.run_visit_of_not_mem hmem]
          have hseen' : ∀ p ∈ (a, b) :: seen, p.1 ∈ S ∧ p.2 ∈ S := by
            intro p hp
            rcases List.mem_cons.mp hp with rfl | hp
            · exact ⟨ha, hb⟩
            · exact hseen p hp
          have hbound := Nat.lt_of_lt_of_le (unseen_cons ha hb hmem) (Nat.le_of_lt_succ hdepth)
          exact (ends_run_all (fun x hx y hy seen hs hlt => ih hx hy hs hlt) hasks hseen' hbound).visit halike

open Classical in
/-- Once it may nest deeper than there are pairs, a comparison that begins with nothing seen decides bisimilarity. -/
theorem settles_bisimilar (hG : Graph w S) (hset : ∀ r ∈ S, w.refType? r ≠ some .set)
    (hraise : ∀ x ∈ S, ∀ y ∈ S, hasForm w x = true → hasForm w y = true →
      ∃ e, w.Settles (compareForms x y) (.ok e))
    (ha : a ∈ S) (hb : b ∈ S) : w.Settles (isEqual a b) (.ok (decide (Bisimilar w a b))) := by
  refine settles_fresh (g := fun n => remembering w n a b)
    (hG.eventually_ready.mono fun n ht => follows_within hG ht n ha hb) ?_
  refine Filter.eventually_atTop.mpr ⟨unseen S [] + 1, fun n hn => ?_⟩
  have hnone : ∀ p ∈ ([] : List (Ref × Ref)), p.1 ∈ S ∧ p.2 ∈ S := fun p hp => absurd hp List.not_mem_nil
  obtain ⟨e, seen', he, -, -, htrue, hfalse⟩ := ends_remembering hG hset hraise n ha hb hnone hn
  have hrun : (remembering w n a b).run [] = .ok (e, seen') := he
  rw [hrun]
  have hiff : e = true ↔ Bisimilar w a b := by
    cases e with
    | false => exact iff_of_false Bool.false_ne_true (hfalse rfl)
    | true =>
        obtain ⟨hjust, hfine⟩ := htrue rfl
        refine iff_of_true rfl ⟨Fine w seen', hfine, fun x y hxy => ?_⟩
        rcases hxy with hm | halike
        · exact hjust (x, y) hm List.not_mem_nil
        · exact halike _
  rw [show e = decide (Bisimilar w a b) from Bool.eq_iff_iff.mpr (hiff.trans (by simp))]
  rfl

/-- Deep equality of two references of a graph without sets, whose forms compare without raising,
answers whether they are bisimilar. -/
theorem isEqual_iff_bisimilar (hG : Graph w S) (hset : ∀ r ∈ S, w.refType? r ≠ some .set)
    (hraise : ∀ x ∈ S, ∀ y ∈ S, hasForm w x = true → hasForm w y = true →
      ∃ e, w.Settles (compareForms x y) (.ok e))
    (ha : a ∈ S) (hb : b ∈ S) :
    ∃ e, w.Settles (isEqual a b) (.ok e) ∧ (e = true ↔ Bisimilar w a b) := by
  classical
  exact ⟨decide (Bisimilar w a b), settles_bisimilar hG hset hraise ha hb, decide_eq_true_iff⟩

/-! ## Rings of lists -/

def ring (next : Nat) : Cell := ⟨.native .list, .sequence [.cell next, intRef 1], [], none⟩

/-- A list that holds itself, and two that hold each other. -/
def rings : World := { Session.initialWorld with cells := #[ring 0, ring 2, ring 1] }

def ringRefs : List Ref := [.cell 0, .cell 1, .cell 2, intRef 1]

theorem graph_rings : Graph rings ringRefs :=
  graph_of_isData Registry.sound_empty (by decide) (by decide) (by decide)
    (by decide)

theorem bisimilar_rings : Bisimilar rings (.cell 0) (.cell 1) := by
  have hitems : ∀ x ∈ ringRefs, ∀ y ∈ ringRefs, (x = intRef 1 ↔ y = intRef 1) → x = y ∨
      ∃ i ∈ [0, 1, 2], ∃ j ∈ [0, 1, 2],
        rings.items? x = some [.cell i, intRef 1] ∧ rings.items? y = some [.cell j, intRef 1] := by
    decide
  have hcell : ∀ i ∈ [0, 1, 2], Ref.cell i ∈ ringRefs ∧ Ref.cell i ≠ intRef 1 := by decide
  refine ⟨fun x y => x ∈ ringRefs ∧ y ∈ ringRefs ∧ (x = intRef 1 ↔ y = intRef 1), by decide, ?_⟩
  rintro x y ⟨hx, hy, hxy⟩
  rcases hitems x hx y hy hxy with rfl | ⟨i, hi, j, hj, hxi, hyj⟩
  · exact .same rfl
  · refine .sequences hxi hyj (.cons ?_ (.cons ⟨by decide, by decide, Iff.rfl⟩ .nil))
    exact ⟨(hcell i hi).1, (hcell j hj).1, iff_of_false (hcell i hi).2 (hcell j hj).2⟩

/-- The list that holds itself equals the two that hold each other. -/
theorem isEqual_rings : rings.Settles (isEqual (.cell 0) (.cell 1)) (.ok true) := by
  have hforms : ∀ x ∈ ringRefs, hasForm rings x = true → x = intRef 1 := by decide
  have hhas : rings.Has (intRef 1) := trivial
  have hone : FormIs rings (intRef 1) (Atom.int 1) _ :=
    formIs_of_hasNativeText hhas rfl (Dispatch.hasNativeText_of_isOrdinary (.atom rings (Atom.int 1)))
  obtain ⟨e, he, hiff⟩ := isEqual_iff_bisimilar graph_rings (by decide)
    (fun x hx y hy hfx hfy => by
      rw [hforms x hx hfx, hforms y hy hfy]
      exact ⟨true, settles_compareForms hhas hhas hone hone⟩)
    (show Ref.cell 0 ∈ ringRefs by decide) (show Ref.cell 1 ∈ ringRefs by decide)
  rw [hiff.mpr bisimilar_rings] at he
  exact he

/-! ## Attributes that cannot be read -/

/-- A class with a slot, a child that fails to compute what stands under the name of the slot, and two lists that begin
with an instance of the child. They end with numbers that are not equal. -/
def measured : World :=
  { Session.initialWorld with
    classes := #[{ programClass "Base" [.declared 0, .native .object] [("size", .slot "size")] with slots := some ["size"] },
      programClass "Derived" [.declared 1, .declared 0, .native .object] [("size", .property 0)]]
    functions := #[⟨"size", .raise (.host .zeroDivisionError "measured"), true, none, false, false⟩]
    cells := #[⟨.native .list, .sequence [.cell 2, intRef 1], [], none⟩,
      ⟨.native .list, .sequence [.cell 3, intRef 2], [], none⟩,
      ⟨.declared 1, .nothing, [], some []⟩, ⟨.declared 1, .nothing, [], some []⟩] }

def measuredRefs : List Ref := [.cell 0, .cell 1, .cell 2, .cell 3, intRef 1, intRef 2]

/-- There are no sets, no class overloads anything and plain values compare, but the comparison of the lists does not
come to an answer. -/
theorem failed_isEqual_measured :
    failed (isEqual (.cell 0) (.cell 1)) measured = some (.host .zeroDivisionError "measured") ∧
    (∀ r ∈ measuredRefs, measured.refType? r ≠ some .set ∧
      (isValueObject measured r = true → measured.overloads (measured.classOf r) = .none)) ∧
    ∀ x ∈ measuredRefs, ∀ y ∈ measuredRefs, measured.isPlain x = true → measured.isPlain y = true →
      failed (Conversion.plainEqual x y) measured = none := by
  decide +kernel

end Introspect.Equality
