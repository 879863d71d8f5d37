import Mathlib.Data.List.Find
import Introspect.Proofs.Equality.Step
/-!
The comparison does as its steps do: on a graph whose references have settled, what it answers depends
on the graph alone.
-/
namespace Introspect.Equality

open World

variable {w : World} {S : List Ref} {t : World} {recur : Ref → Ref → Visit Bool}
  {recur' : Ref → Ref → Recall Bool} {a b : Ref}

theorem follows_sequences (h : ∀ x ∈ S, ∀ y ∈ S, t.Follows (recur x y) (recur' x y)) (xs ys : List Ref)
    (hx : ∀ x ∈ xs, x ∈ S) (hy : ∀ y ∈ ys, y ∈ S) :
    t.Follows (sequences recur xs ys) ((Plan.all ((xs.zip ys).map some)).run recur') := by
  rw [sequences_eq]
  refine Plan.follows_run (P := fun x y => x ∈ S ∧ y ∈ S) (fun x y hxy => h x hxy.1 y hxy.2) ?_
  refine .all fun p hp q hq => ?_
  obtain ⟨e, he, rfl⟩ := List.mem_map.mp hp
  cases hq
  exact (List.of_mem_zip he).imp (hx _) (hy _)

theorem follows_mappings (hG : Graph w S) (ht : Ready w S t)
    (h : ∀ x ∈ S, ∀ y ∈ S, t.Follows (recur x y) (recur' x y)) (xs ys : List (Ref × Ref))
    (hx : ∀ e ∈ xs, e.1 ∈ S ∧ e.2 ∈ S) (hy : ∀ e ∈ ys, e.1 ∈ S ∧ e.2 ∈ S) :
    t.Follows (mappings recur ys xs) ((Plan.all (valuePairs w xs ys)).run recur') := by
  induction xs with
  | nil => exact .pure t true
  | cons e rest ih =>
      obtain ⟨key, value⟩ := e
      have hk : key ∈ S := (hx _ List.mem_cons_self).1
      have ih := ih fun e he => hx e (List.mem_cons_of_mem _ he)
      refine .getWorld fun v hv => ?_
      have hfind : v.findKey? key ys = w.entryFor? key ys := by
        unfold findKey? entryFor?
        refine List.find?_congr fun e he => ?_
        have hkey := (ht.mono hG hv).keys e.1 (hy e he).1 key hk
        exact Bool.eq_iff_iff.mpr (hkey.trans (by simp only [decide_eq_true_eq]))
      rw [hfind, valuePairs, List.map_cons]
      cases hf : w.entryFor? key ys with
      | none => exact .pure v false
      | some e' =>
          refine ((h value (hx _ List.mem_cons_self).2 e'.2 (hy _ (mem_of_entryFor? hf)).2).mono hv).bind
            fun equal => ?_
          cases equal
          · exact .pure v false
          · exact ih.mono hv

theorem follows_fieldMaps (h : ∀ x ∈ S, ∀ y ∈ S, t.Follows (recur x y) (recur' x y))
    (xs ys : List (String × Ref)) (hx : ∀ e ∈ xs, e.2 ∈ S) (hy : ∀ e ∈ ys, e.2 ∈ S) :
    t.Follows (fieldMaps recur ys xs) ((Plan.all (fieldPairs xs ys)).run recur') := by
  rw [fieldMaps_eq]
  refine Plan.follows_run (P := fun x y => x ∈ S ∧ y ∈ S) (fun x y hxy => h x hxy.1 y hxy.2) ?_
  refine .all fun p hp q hq => ?_
  obtain ⟨e, he, rfl⟩ := List.mem_map.mp hp
  obtain ⟨y, hl, rfl⟩ := Option.map_eq_some_iff.mp hq
  exact ⟨hx e he, hy _ (Pairs.mem_of_lookup hl)⟩

theorem follows_sets (h : ∀ x ∈ S, ∀ y ∈ S, t.Follows (recur x y) (recur' x y)) (xs ys : List Ref)
    (hx : ∀ x ∈ xs, x ∈ S) (hy : ∀ y ∈ ys, y ∈ S) :
    t.Follows (sets recur xs ys) ((Plan.sets xs ys).run recur') := by
  rw [sets_eq]
  refine Plan.follows_run (P := fun x y => x ∈ S ∧ y ∈ S) (fun x y hxy => h x hxy.1 y hxy.2) ?_
  exact .sets fun x hxm y hym => ⟨hx x hxm, hy y hym⟩

/-- Objects of one class are compared by their fields. -/
theorem follows_fieldsOf {xs ys : List (String × Ref)} (ht : w.Grows t) (ha : w.Has a) (hb : w.Has b)
    (hc : w.classOf a = w.classOf b) (hxs : t.Steady (fields a) (.ok xs)) (hys : t.Steady (fields b) (.ok ys))
    (h : t.Follows (fieldMaps recur ys xs) ((Plan.all (fieldPairs xs ys)).run recur')) :
    t.Follows (objects recur a b)
      ((if xs.length ≠ ys.length then .done false else .all (fieldPairs xs ys) : Plan).run recur') := by
  refine .getWorld fun v hv => ?_
  have hgrow := ht.trans hv.grows
  rw [hgrow.classOf ha, hgrow.classOf hb, if_neg (not_not.mpr hc)]
  refine .reading (hxs.mono hv) (.reading (hys.mono hv) ?_)
  split
  · exact .pure v false
  · exact h.mono hv

theorem follows_objects (hG : Graph w S) (ht : Ready w S t) (ha : a ∈ S) (hb : b ∈ S)
    (hfa : hasForm w a = false) (hfb : hasForm w b = false)
    (ho : w.isObject a = true ∨ w.isObject b = true)
    (h : ∀ x ∈ S, ∀ y ∈ S, t.Follows (recur x y) (recur' x y)) :
    t.Follows (objects recur a b) ((objectPlan w a b).run recur') := by
  unfold objectPlan
  split
  · rename_i hc
    refine .getWorld fun v hv => ?_
    have hgrow := ht.grows.trans hv.grows
    rw [hgrow.classOf (hG.has a ha), hgrow.classOf (hG.has b hb), if_pos hc]
    exact .pure v false
  · rename_i hc
    have hc := not_not.mp hc
    have heq := hG.layout a ha b hb hc
    have hoa : w.isObject a = true := ho.elim id (heq ▸ ·)
    have hob : w.isObject b = true := heq ▸ hoa
    refine follows_fieldsOf ht.grows (hG.has a ha) (hG.has b hb) hc (ht.storage a ha hoa hfa) (ht.storage b hb hob hfb) ?_
    exact follows_fieldMaps h (w.storage a) (w.storage b)
      (fun e he => hG.parts a ha e.2 (.inl (.field hoa (n := e.1) he)))
      fun e he => hG.parts b hb e.2 (.inl (.field hob (n := e.1) he))

theorem follows_contents {kind : RefType} (hG : Graph w S) (ht : Ready w S t) (ha : a ∈ S) (hb : b ∈ S)
    (hka : w.refType? a = some kind) (hkb : w.refType? b = some kind)
    (hfa : hasForm w a = false) (hfb : hasForm w b = false)
    (h : ∀ x ∈ S, ∀ y ∈ S, t.Follows (recur x y) (recur' x y)) :
    t.Follows (contents recur kind a b) ((contentPlan w kind a b).run recur') := by
  refine .getWorld fun v hv => ?_
  have hgrow := ht.grows.trans hv.grows
  have hv' := fun x hx y hy => (h x hx y hy).mono hv
  have hready := ht.mono hG hv
  simp only [hgrow.body (hG.has a ha), hgrow.body (hG.has b hb), hgrow.items? (hG.has a ha),
    hgrow.items? (hG.has b hb)]
  split
  · rename_i x _ y _ hxa hxb
    have hx := hG.parts a ha x (.inl (.content hxa))
    have hy := hG.parts b hb y (.inl (.content hxb))
    simp only [contentPlan, hxa, hxb]
    rw [Plan.run_all_cons, ← bind_pure (recur x y)]
    refine (hv' x hx y hy).bind fun equal => ?_
    cases equal
    · exact .pure v false
    · exact .pure v true
  · rename_i xs ys hxa hxb
    simp only [contentPlan, hxa, hxb]
    split
    · exact .pure v false
    · exact follows_mappings hG hready hv' xs ys (fun e he => ⟨hG.key ha hxa he, hG.value ha hxa he⟩)
        fun e he => ⟨hG.key hb hxb he, hG.value hb hxb he⟩
  · rename_i hmap
    rw [contentPlan_of_hash hmap]
    exact follows_objects hG hready ha hb hfa hfb (isObject_of_hash hka hkb hmap) hv'
  · split
    · rename_i xs ys hxa hxb
      simp only [contentPlan, hxa, hxb]
      split
      · exact .pure v false
      · exact follows_sequences hv' xs ys (fun x hx => hG.parts a ha x (.inl (.item hxa hx)))
          fun y hy => hG.parts b hb y (.inl (.item hxb hy))
    · rename_i hitems
      rw [contentPlan_of_array hitems]
      exact follows_objects hG hready ha hb hfa hfb (isObject_of_array hka hkb hitems) hv'
  · rename_i xs ys hxa hxb
    simp only [contentPlan, hxa, hxb]
    split
    · exact .pure v false
    · exact follows_sets hv' xs ys (fun x hx => hG.member ha hxa hx) fun y hy => hG.member hb hxb hy
  · rename_i hhash harray hbox _ hset
    rw [contentPlan_of_others hhash harray hbox hset]
    exact .pure v false

/-- References of one shape are compared by their contents when they are seen for the first time. -/
theorem follows_visit {kind : RefType} {plan : Plan} (ht : w.Grows t) (ha : w.Has a) (hb : w.Has b)
    (hka : w.refType? a = some kind) (hkb : w.refType? b = some kind)
    (h : t.Follows (contents recur kind a b) (plan.run recur')) :
    t.Follows (references recur a b) ((Outcome.visit plan).run recur' (a, b)) := by
  refine .getWorld fun v hv => ?_
  have hgrow := ht.trans hv.grows
  rw [hgrow.refType? ha, hgrow.refType? hb, hka, hkb]
  dsimp only
  rw [if_neg (not_not.mpr rfl)]
  refine .getState fun seen => ?_
  split
  · exact .pure v true
  · exact (Follows.modifyState v _).bind fun _ => h.mono hv

theorem follows_references (hG : Graph w S) (ht : Ready w S t) (ha : a ∈ S) (hb : b ∈ S)
    (hfa : hasForm w a = false) (hfb : hasForm w b = false)
    (h : ∀ x ∈ S, ∀ y ∈ S, t.Follows (recur x y) (recur' x y)) :
    t.Follows (references recur a b) ((structural w a b).run recur' (a, b)) := by
  have hhas := hG.has a ha
  have hhas' := hG.has b hb
  by_cases hk : ∃ kind, w.refType? a = some kind ∧ w.refType? b = some kind
  · obtain ⟨kind, hka, hkb⟩ := hk
    rw [structural, hka, hkb]
    dsimp only
    rw [if_neg (not_not.mpr rfl)]
    exact follows_visit ht.grows hhas hhas' hka hkb (follows_contents hG ht ha hb hka hkb hfa hfb h)
  · refine .getWorld fun v hv => ?_
    have hgrow := ht.grows.trans hv.grows
    rw [hgrow.refType? hhas, hgrow.refType? hhas', structural]
    cases hka : w.refType? a with
    | none => exact .pure v false
    | some kind =>
        cases hkb : w.refType? b with
        | none => exact .pure v false
        | some kind' =>
            have hne : kind ≠ kind' := fun he => hk ⟨kind, hka, he ▸ hkb⟩
            dsimp only
            rw [if_pos hne, if_pos hne]
            exact .pure v false

theorem not_isPlain_of_isValueObject {r : Ref} (h : isValueObject w r = true) : w.isPlain r = false := by
  unfold isValueObject at h
  unfold isPlain atom?
  cases hb : w.body r <;> simp_all

theorem isValueObject_grows {r : Ref} (hr : w.Has r) (ht : w.Grows t) :
    isValueObject t r = isValueObject w r := by
  simp only [isValueObject, ht.body hr]

section Hooks

variable (hs : w.registry.Sound) (ht : w.Grows t) (ha : w.Has a)
  (hlive : isValueObject w a = true → w.isAlive (w.classOf a) = true)
include hs ht ha hlive

theorem steady_overloadsOf (hv : isValueObject w a = true) :
    t.Steady (Conversion.overloads a) (.ok (w.overloads (w.classOf a))) := by
  rw [← ht.overloads, ← ht.classOf ha]
  refine Conversion.steady_overloads (ht.sound hs) (ht.has ha) ?_
  rw [ht.classOf ha, ht.isAlive, hlive hv]

theorem steady_isConverted : t.Steady (isConverted a) (.ok (converts w a)) := by
  refine .get fun v hv => ?_
  have hgrow := ht.trans hv.grows
  rw [isValueObject_grows ha hgrow, converts]
  cases ho : isValueObject w a with
  | false => exact .pure v false
  | true =>
      refine .get fun u hu => ?_
      have hgrow' := hgrow.trans hu.grows
      rw [hgrow'.isPlain ha, not_isPlain_of_isValueObject ho]
      exact (steady_overloadsOf hs hgrow' ha hlive ho).bind (g := fun o => .ok (o.text || o.number))
        fun o _ => .pure u _

theorem steady_overloadsEquality (hnone : isValueObject w a = true → (w.overloads (w.classOf a)).equality = false) :
    t.Steady (overloadsEquality a) (.ok false) := by
  refine .get fun v hv => ?_
  have hgrow := ht.trans hv.grows
  rw [isValueObject_grows ha hgrow]
  cases ho : isValueObject w a with
  | false => exact .pure v false
  | true =>
      rw [← hnone ho]
      exact (steady_overloadsOf hs hgrow ha hlive ho).bind (g := fun o => .ok o.equality) fun o _ => .pure v _

end Hooks

theorem steady_eitherOverloads (ha : t.Steady (overloadsEquality a) (.ok false))
    (hb : t.Steady (overloadsEquality b) (.ok false)) : t.Steady (eitherOverloads a b) (.ok false) := by
  refine ha.bind (g := fun _ => .ok false) fun equal he => ?_
  cases he
  exact hb

theorem Graph.steady_isConverted (hG : Graph w S) (ht : w.Grows t) (ha : a ∈ S) :
    t.Steady (isConverted a) (.ok (converts w a)) :=
  Equality.steady_isConverted hG.sound ht (hG.has a ha) (hG.alive a ha)

theorem Graph.steady_overloadsEquality (hG : Graph w S) (ht : w.Grows t) (ha : a ∈ S) :
    t.Steady (overloadsEquality a) (.ok false) :=
  Equality.steady_overloadsEquality hG.sound ht (hG.has a ha) (hG.alive a ha) (hG.noEquality a ha)

theorem Ready.steady_converted (hG : Graph w S) (ht : Ready w S t) (ha : a ∈ S) (hb : b ∈ S)
    (hfa : hasForm w a = true) (hfb : hasForm w b = true) :
    t.Steady (do Conversion.plainEqual (← converted (w.isPlain a) a) (← converted (w.isPlain b) b))
      (w.answer (compareForms a b)) := by
  refine .congr (fun v hv => ?_) (ht.forms a ha b hb hfa hfb)
  rw [← (ht.grows.trans hv.grows).isPlain (hG.has a ha), ← (ht.grows.trans hv.grows).isPlain (hG.has b hb)]
  rfl

theorem converts_of_forms (hplain : ¬ (w.isPlain a && w.isPlain b) = true)
    (hforms : (hasForm w a && hasForm w b) = true) : (converts w a || converts w b) = true := by
  unfold hasForm at hforms
  revert hplain hforms
  cases w.isPlain a <;> cases w.isPlain b <;> cases converts w a <;> cases converts w b <;> simp

theorem isPlain_of_form (hconv : ¬ (converts w a || converts w b) = true)
    (hform : (hasForm w a || hasForm w b) = true) : (w.isPlain a || w.isPlain b) = true := by
  unfold hasForm at hform
  revert hform hconv
  cases converts w a <;> cases converts w b <;> simp

/-- A comparison of two references of the graph does as the step does. -/
theorem follows_compare (hG : Graph w S) (ht : Ready w S t) (ha : a ∈ S) (hb : b ∈ S)
    (h : ∀ x ∈ S, ∀ y ∈ S, t.Follows (recur x y) (recur' x y)) :
    t.Follows (compare recur a b) (step w recur' a b) := by
  unfold compare step outcome
  split
  · exact .pure t true
  · refine .getWorld fun v hv => ?_
    have hready := ht.mono hG hv
    rw [hready.grows.isPlain (hG.has a ha), hready.grows.isPlain (hG.has b hb)]
    dsimp only
    split
    · rename_i hplain
      simp only [Bool.and_eq_true] at hplain
      have hforms := hready.steady_converted hG ha hb (by simp [hasForm, hplain.1]) (by simp [hasForm, hplain.2])
      simp only [hasForm, hplain, Bool.true_or, Bool.and_self, ↓reduceIte]
      rw [hplain.1, hplain.2] at hforms
      exact .lift hforms
    · rename_i hplain
      have hequality {r : Ref} (hr : r ∈ S) := hG.steady_overloadsEquality hready.grows hr
      refine .reading (steady_eitherOverloads (hequality ha) (hequality hb)) ?_
      refine .reading (hG.steady_isConverted hready.grows ha) ?_
      refine .reading (hG.steady_isConverted hready.grows hb) ?_
      have hfa : hasForm w a = (w.isPlain a || converts w a) := rfl
      have hfb : hasForm w b = (w.isPlain b || converts w b) := rfl
      by_cases hforms : (hasForm w a && hasForm w b) = true
      · rw [← hfa, ← hfb, if_pos (converts_of_forms hplain hforms), if_pos hforms, if_pos hforms]
        rw [Bool.and_eq_true] at hforms
        have hsteady := hready.steady_converted hG ha hb hforms.1 hforms.2
        have hlift := Follows.lift (σ := Seen) hsteady
        simp only [liftM_bind] at hlift
        exact hlift
      · rw [← hfa, ← hfb, if_neg hforms]
        by_cases hform : (hasForm w a || hasForm w b) = true
        · rw [if_pos hform]
          split
          · exact .pure v false
          · rename_i hconv
            rw [if_pos (isPlain_of_form hconv hform)]
            exact .pure v false
        · rw [if_neg hform, if_neg hforms]
          rw [Bool.or_eq_true, not_or, Bool.not_eq_true, Bool.not_eq_true] at hform
          obtain ⟨hna, hnb⟩ := hform
          obtain ⟨hpa, hca⟩ := Bool.or_eq_false_iff.mp (hfa ▸ hna)
          obtain ⟨hpb, hcb⟩ := Bool.or_eq_false_iff.mp (hfb ▸ hnb)
          simp only [hpa, hca, hpb, hcb, Bool.or_self, Bool.false_eq_true, ↓reduceIte]
          exact follows_references hG hready ha hb hna hnb fun x hx y hy => (h x hx y hy).mono hv

/-! ## Whole comparisons -/

noncomputable def remembering (w : World) : Nat → Ref → Ref → Recall Bool
  | 0, _, _ => fun _ => .error .nesting
  | depth + 1, a, b => step w (remembering w depth) a b

theorem follows_within (hG : Graph w S) (ht : Ready w S t) (depth : Nat) (ha : a ∈ S) (hb : b ∈ S) :
    t.Follows (within depth a b) (remembering w depth a b) := by
  induction depth generalizing a b with
  | zero => exact fun _ => .throw t .nesting
  | succ depth ih => exact follows_compare hG ht ha hb fun x hx y hy => ih hx hy

/-- A comparison within the limit of the world that has seen nothing before. -/
def fresh (f : Nat → Visit Bool) : Act Bool := do return (← (f (← get).nesting).run []).1

theorem steady_fresh {f : Nat → Visit Bool} {p : Recall Bool} {n : Nat}
    (h : (w.limited n).Follows (f n) p) : (w.limited n).Steady (fresh f) (Prod.fst <$> p.run []) := by
  refine .get fun v hv => ?_
  rw [hv.nesting]
  exact ((h []).mono hv).map (f := Prod.fst)

theorem settles_fresh {f : Nat → Visit Bool} {g : Nat → Recall Bool} {x : Except Fault Bool}
    (hf : ∀ᶠ n in Filter.atTop, (w.limited n).Follows (f n) (g n))
    (hx : ∀ᶠ n in Filter.atTop, Prod.fst <$> (g n).run [] = x) : w.Settles (fresh f) x := by
  filter_upwards [hf, hx] with n hn hxn
  rw [← hxn]
  exact steady_fresh hn

end Introspect.Equality
