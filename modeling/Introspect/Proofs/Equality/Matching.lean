import Introspect.Proofs.Equality.Bisimulation
/-!
Plans whose pairs are known to be equal. Sets match greedily: each member takes the first equal one out of the
other set. That succeeds if the members can be paired off at all and their equality lets partners be exchanged; in
every order of the members it succeeds only then.
-/
namespace Introspect.Equality

/-- Comparing any two answers, and partners can be exchanged: if one of two references equals both of two others, then
the second equals both of them or none. -/
structure Exchangeable (f : Ref → Ref → Except Fault Bool) (xs ys : List Ref) : Prop where
  answers : ∀ x ∈ xs, ∀ y ∈ ys, ∃ e, f x y = .ok e
  exchange : ∀ x ∈ xs, ∀ x' ∈ xs, ∀ y ∈ ys, ∀ y' ∈ ys,
    f x y = .ok true → f x' y = .ok true → f x' y' = .ok true → f x y' = .ok true

theorem Exchangeable.mono {f : Ref → Ref → Except Fault Bool} {xs ys xs' ys' : List Ref} (h : Exchangeable f xs ys)
    (hx : ∀ x ∈ xs', x ∈ xs) (hy : ∀ y ∈ ys', y ∈ ys) : Exchangeable f xs' ys' where
  answers x hxm y hym := h.answers x (hx x hxm) y (hy y hym)
  exchange x hxm x' hxm' y hym y' hym' :=
    h.exchange x (hx x hxm) x' (hx x' hxm') y (hy y hym) y' (hy y' hym')

/-- The members can be paired one to one, all of both, so that the relation holds of each pair. -/
def PairsOff (R : Ref → Ref → Prop) (xs ys : List Ref) : Prop :=
  ∃ pairs : List (Ref × Ref), (pairs.map (·.1)).Perm xs ∧ (pairs.map (·.2)).Perm ys ∧ ∀ p ∈ pairs, R p.1 p.2

/-- Members that are related to one member in common are related to the same members. -/
def Exchanges (R : Ref → Ref → Prop) (xs ys : List Ref) : Prop :=
  ∀ x ∈ xs, ∀ x' ∈ xs, ∀ y ∈ ys, ∀ y' ∈ ys, R x y → R x' y → R x' y' → R x y'

section Lists

variable {R R' : Ref → Ref → Prop} {xs ys xs' ys' : List Ref}

theorem PairsOff.mono (h : PairsOff R xs ys) (hR : ∀ x ∈ xs, ∀ y ∈ ys, R x y → R' x y) : PairsOff R' xs ys := by
  obtain ⟨pairs, hx, hy, hpairs⟩ := h
  refine ⟨pairs, hx, hy, fun p hp => hR _ ?_ _ ?_ (hpairs p hp)⟩
  · exact hx.subset (List.mem_map_of_mem hp)
  · exact hy.subset (List.mem_map_of_mem hp)

theorem pairsOff_congr (h : ∀ x ∈ xs, ∀ y ∈ ys, R x y ↔ R' x y) : PairsOff R xs ys ↔ PairsOff R' xs ys :=
  ⟨fun hp => hp.mono fun x hx y hy => (h x hx y hy).mp, fun hp => hp.mono fun x hx y hy => (h x hx y hy).mpr⟩

theorem PairsOff.perm (h : PairsOff R xs ys) (hx : xs.Perm xs') (hy : ys.Perm ys') : PairsOff R xs' ys' := by
  obtain ⟨pairs, hfst, hsnd, hpairs⟩ := h
  exact ⟨pairs, hfst.trans hx, hsnd.trans hy, hpairs⟩

theorem PairsOff.length_eq (h : PairsOff R xs ys) : xs.length = ys.length := by
  obtain ⟨pairs, hx, hy, -⟩ := h
  rw [← hx.length_eq, ← hy.length_eq, List.length_map, List.length_map]

theorem pairsOff_self (h : ∀ x ∈ xs, R x x) : PairsOff R xs xs := by
  refine ⟨xs.map fun x => (x, x), ?_, ?_, by simpa using h⟩
  · simp [Function.comp_def]
  · simp [Function.comp_def]

theorem exchanges_congr (h : ∀ x ∈ xs, ∀ y ∈ ys, R x y ↔ R' x y) : Exchanges R xs ys ↔ Exchanges R' xs ys := by
  refine forall₂_congr fun x hx => forall₂_congr fun x' hx' => forall₂_congr fun y hy => forall₂_congr fun y' hy' => ?_
  rw [h x hx y hy, h x' hx' y hy, h x' hx' y' hy', h x hx y' hy']

theorem Exchanges.perm (h : Exchanges R xs ys) (hx : xs.Perm xs') (hy : ys.Perm ys') : Exchanges R xs' ys' :=
  fun x hxm x' hxm' y hym y' hym' =>
    h x (hx.symm.subset hxm) x' (hx.symm.subset hxm') y (hy.symm.subset hym) y' (hy.symm.subset hym')

theorem exists_perm_pair {x x' : Ref} (hx : x ∈ xs) (hx' : x' ∈ xs) (hne : x ≠ x') :
    ∃ rest, xs.Perm (x :: x' :: rest) := by
  have hrest : x' ∈ xs.erase x := (List.mem_erase_of_ne hne.symm).mpr hx'
  exact ⟨_, (List.perm_cons_erase hx).trans ((List.perm_cons_erase hrest).cons x)⟩

end Lists

/-! ## Plans with equal pairs -/

namespace Plan

variable {f : Ref → Ref → Except Fault Bool} {x : Ref} {xs ys : List Ref}

theorem run_all_of_allIn {pairs : List (Option (Ref × Ref))} (h : AllIn (fun x y => f x y = .ok true) pairs) :
    (all pairs).run f = .ok true := by
  induction pairs with
  | nil => rfl
  | cons p rest ih =>
      obtain ⟨q, rfl, hq⟩ := h p List.mem_cons_self
      rw [run_all_cons, hq]
      exact ih fun p hp => h p (List.mem_cons_of_mem _ hp)

/-- A member that has an equal one takes one of those out. -/
theorem run_without_of_exists (hanswers : ∀ y ∈ ys, ∃ e, f x y = .ok e) (h : ∃ y ∈ ys, f x y = .ok true) :
    ∃ y rest, ys.Perm (y :: rest) ∧ f x y = .ok true ∧
      ∀ next, (without x ys next).run f = (next (some rest)).run f := by
  induction ys with
  | nil =>
      obtain ⟨y, hy, -⟩ := h
      exact absurd hy List.not_mem_nil
  | cons z rest ih =>
      obtain ⟨e, he⟩ := hanswers z List.mem_cons_self
      have hrun (next : Option (List Ref) → Plan) : (without x (z :: rest) next).run f =
          if e then (next (some rest)).run f else (without x rest fun found => next (found.map (z :: ·))).run f := by
        change (f x z >>= _) = _
        rw [he]
        cases e <;> rfl
      cases e with
      | true => exact ⟨z, rest, .refl _, he, hrun⟩
      | false =>
          have hlater : ∃ y ∈ rest, f x y = .ok true := by
            obtain ⟨y, hy, htrue⟩ := h
            rcases List.mem_cons.mp hy with rfl | hy
            · rw [he] at htrue
              cases htrue
            · exact ⟨y, hy, htrue⟩
          obtain ⟨y, remaining, hp, htrue, hnext⟩ := ih (fun y hy => hanswers y (List.mem_cons_of_mem _ hy)) hlater
          exact ⟨y, z :: remaining, (hp.cons z).trans (.swap ..), htrue, fun next => (hrun next).trans (hnext _)⟩

/-- Where one second of the pairs is taken instead of `y₀`, the pair that loses it can have `y₀`. -/
theorem exists_exchanged {pairs : List (Ref × Ref)} {y y₀ : Ref} {remaining : List Ref}
    (hp : (y :: remaining).Perm (y₀ :: pairs.map (·.2))) (hequal : ∀ p ∈ pairs, f p.1 p.2 = .ok true)
    (hswap : ∀ x, (x, y) ∈ pairs → f x y₀ = .ok true) :
    ∃ pairs' : List (Ref × Ref), (pairs'.map (·.1)).Perm (pairs.map (·.1)) ∧ (pairs'.map (·.2)).Perm remaining ∧
      ∀ p ∈ pairs', f p.1 p.2 = .ok true := by
  by_cases hy : y = y₀
  · subst hy
    exact ⟨pairs, .refl _, hp.cons_inv.symm, hequal⟩
  · have hother : y ∈ pairs.map (·.2) := (List.mem_cons.mp (hp.subset List.mem_cons_self)).resolve_left hy
    obtain ⟨⟨x, y⟩, hmem, rfl⟩ := List.mem_map.mp hother
    obtain ⟨more, hmore⟩ : ∃ more, pairs.Perm ((x, y) :: more) := ⟨_, List.perm_cons_erase hmem⟩
    have hseconds : (y :: remaining).Perm (y :: y₀ :: more.map (·.2)) :=
      hp.trans (((hmore.map _).cons y₀).trans (.swap ..))
    refine ⟨(x, y₀) :: more, (hmore.map (·.1)).symm, hseconds.cons_inv.symm, fun p hp => ?_⟩
    rcases List.mem_cons.mp hp with rfl | hp
    · exact hswap x hmem
    · exact hequal p (hmore.symm.subset (List.mem_cons_of_mem _ hp))

/-- Sets whose members can be paired off as equal are found equal, whatever partners the members take. -/
theorem run_sets_of_pairs (hex : Exchangeable f xs ys) {pairs : List (Ref × Ref)} (hx : (pairs.map (·.1)).Perm xs)
    (hy : (pairs.map (·.2)).Perm ys) (htrue : ∀ p ∈ pairs, f p.1 p.2 = .ok true) : (sets xs ys).run f = .ok true := by
  induction xs generalizing ys pairs with
  | nil => rfl
  | cons x rest ih =>
      obtain ⟨⟨x, y₀⟩, hmem, rfl⟩ := List.mem_map.mp (hx.symm.subset List.mem_cons_self)
      obtain ⟨others, hothers⟩ : ∃ others, pairs.Perm ((x, y₀) :: others) := ⟨_, List.perm_cons_erase hmem⟩
      have hrest : (others.map (·.1)).Perm rest := ((hothers.map _).symm.trans hx).cons_inv
      have hys : ys.Perm (y₀ :: others.map (·.2)) := hy.symm.trans (hothers.map _)
      have hy₀ : y₀ ∈ ys := hys.symm.subset List.mem_cons_self
      have hequal : ∀ p ∈ others, f p.1 p.2 = .ok true := fun p hp =>
        htrue p (hothers.symm.subset (List.mem_cons_of_mem _ hp))
      obtain ⟨y, remaining, hp, hxy, hnext⟩ :=
        run_without_of_exists (hex.answers x List.mem_cons_self) ⟨y₀, hy₀, htrue _ hmem⟩
      have hyy : y ∈ ys := hp.symm.subset List.mem_cons_self
      obtain ⟨others', hx', hy', hequal'⟩ := exists_exchanged (hp.symm.trans hys) hequal fun x' hmem' => by
        have hx' : x' ∈ rest := hrest.subset (List.mem_map.mpr ⟨_, hmem', rfl⟩)
        exact hex.exchange x' (List.mem_cons_of_mem _ hx') x List.mem_cons_self y hyy y₀ hy₀ (hequal _ hmem') hxy
          (htrue _ hmem)
      refine (hnext _).trans
        (ih (hex.mono (fun z => List.mem_cons_of_mem _) fun z hz => ?_) (hx'.trans hrest) hy' hequal')
      exact hp.symm.subset (List.mem_cons_of_mem _ hz)

/-! ## Every order -/

theorem run_without_of_not_exists (h : ∀ y ∈ ys, f x y = .ok false) (next : Option (List Ref) → Plan) :
    (without x ys next).run f = (next none).run f := by
  induction ys generalizing next with
  | nil => rfl
  | cons y rest ih =>
      change (f x y >>= _) = _
      rw [h y List.mem_cons_self]
      exact ih (fun z hz => h z (List.mem_cons_of_mem _ hz)) _

/-- Where each member of the first set stands opposite an equal one, they take each other. -/
theorem run_sets_of_zip (pairs : List (Ref × Ref)) (h : ∀ p ∈ pairs, f p.1 p.2 = .ok true) :
    (sets (pairs.map (·.1) ++ xs) (pairs.map (·.2) ++ ys)).run f = (sets xs ys).run f := by
  induction pairs with
  | nil => rfl
  | cons p rest ih =>
      change (f p.1 p.2 >>= _) = _
      rw [h p List.mem_cons_self]
      exact ih fun q hq => h q (List.mem_cons_of_mem _ hq)

theorem run_sets_of_pairing (pairs : List (Ref × Ref)) (h : ∀ p ∈ pairs, f p.1 p.2 = .ok true) :
    (sets (pairs.map (·.1)) (pairs.map (·.2))).run f = .ok true := by
  have hzip : (sets (pairs.map (·.1) ++ []) (pairs.map (·.2) ++ [])).run f = .ok true := run_sets_of_zip pairs h
  rwa [List.append_nil, List.append_nil] at hzip

theorem run_sets_of_exchanges (hanswers : ∀ x ∈ xs, ∀ y ∈ ys, ∃ e, f x y = .ok e)
    (hex : Exchanges (fun x y => f x y = .ok true) xs ys) (h : PairsOff (fun x y => f x y = .ok true) xs ys) :
    (sets xs ys).run f = .ok true := by
  obtain ⟨pairs, hx, hy, hpairs⟩ := h
  exact run_sets_of_pairs ⟨hanswers, hex⟩ hx hy hpairs

/-- Members that all take an equal one are paired off with those that they take. -/
theorem run_sets_cases (hanswers : ∀ x ∈ xs, ∀ y ∈ ys, ∃ e, f x y = .ok e) :
    (sets xs ys).run f = .ok false ∨ (sets xs ys).run f = .ok true ∧ ∃ pairs : List (Ref × Ref),
      pairs.map (·.1) = xs ∧ (pairs.map (·.2)).Subperm ys ∧ ∀ p ∈ pairs, f p.1 p.2 = .ok true := by
  induction xs generalizing ys with
  | nil => exact .inr ⟨rfl, [], rfl, List.nil_subperm, fun p hp => absurd hp List.not_mem_nil⟩
  | cons x rest ih =>
      by_cases hexists : ∃ y ∈ ys, f x y = .ok true
      · obtain ⟨y, remaining, hp, hxy, hnext⟩ := run_without_of_exists (hanswers x List.mem_cons_self) hexists
        have hrest : ∀ x ∈ rest, ∀ y ∈ remaining, ∃ e, f x y = .ok e := fun x hx y hy =>
          hanswers x (List.mem_cons_of_mem _ hx) y (hp.symm.subset (List.mem_cons_of_mem _ hy))
        rcases ih hrest with hfalse | ⟨htrue, pairs, hfst, hsnd, hpairs⟩
        · exact .inl ((hnext _).trans hfalse)
        · refine .inr ⟨(hnext _).trans htrue, (x, y) :: pairs, by rw [List.map_cons, hfst], ?_, ?_⟩
          · exact ((List.subperm_cons y).mpr hsnd).trans hp.symm.subperm
          · intro p hmem
            rcases List.mem_cons.mp hmem with rfl | hmem
            · exact hxy
            · exact hpairs p hmem
      · refine .inl (run_without_of_not_exists (fun y hy => ?_) _)
        obtain ⟨e, he⟩ := hanswers x List.mem_cons_self y hy
        cases e with
        | false => exact he
        | true => exact absurd ⟨y, hy, he⟩ hexists

theorem exists_pairs_of_run_sets (hanswers : ∀ x ∈ xs, ∀ y ∈ ys, ∃ e, f x y = .ok e) (hlen : xs.length = ys.length)
    (h : (sets xs ys).run f = .ok true) : ∃ pairs : List (Ref × Ref),
      pairs.map (·.1) = xs ∧ (pairs.map (·.2)).Perm ys ∧ ∀ p ∈ pairs, f p.1 p.2 = .ok true := by
  rcases run_sets_cases hanswers with hfalse | ⟨-, pairs, hfst, hsnd, hpairs⟩
  · cases h.symm.trans hfalse
  · refine ⟨pairs, hfst, hsnd.perm_of_length_le ?_, hpairs⟩
    rw [← hlen, ← hfst, List.length_map, List.length_map]

/-- If `x` does not equal `y'`, then `x'` may take `y` where that is the only one for `x`. -/
theorem exchanges_of_run_sets (hanswers : ∀ x ∈ xs, ∀ y ∈ ys, ∃ e, f x y = .ok e) (hlen : xs.length = ys.length)
    (h : ∀ xs' ys', xs.Perm xs' → ys.Perm ys' → (sets xs' ys').run f = .ok true) :
    Exchanges (fun x y => f x y = .ok true) xs ys := by
  intro x hx x' hx' y hy y' hy' hxy hxy' hxy''
  by_contra hdiffer
  obtain ⟨rest, hrest⟩ := exists_perm_pair hx hx' (by rintro rfl; exact hdiffer hxy'')
  obtain ⟨rest', hrest'⟩ := exists_perm_pair hy hy' (by rintro rfl; exact hdiffer hxy)
  -- the others can be paired off among themselves
  have hothers : (sets rest rest').run f = .ok true := by
    refine (run_sets_of_zip [(x, y), (x', y')] ?_).symm.trans (h _ _ hrest hrest')
    simp [hxy, hxy'']
  obtain ⟨pairs, hfst, hsnd, hpairs⟩ := exists_pairs_of_run_sets
    (fun z hz u hu => hanswers z (hrest.symm.subset (by simp [hz])) u (hrest'.symm.subset (by simp [hu])))
    (by simpa using hrest.length_eq.symm.trans (hlen.trans hrest'.length_eq)) hothers
  -- but then `x'` comes before `x` where only `y` and `y'` are left
  have hlast : (sets [x', x] [y, y']).run f = .ok true := by
    rw [← run_sets_of_zip pairs hpairs, hfst]
    have hend (z z' : Ref) (l : List Ref) : ([z, z'] ++ l).Perm (l ++ [z, z']) := List.perm_append_comm
    refine h _ _ (hrest.trans ?_) (hrest'.trans ?_)
    · exact (List.Perm.swap x' x rest).trans (hend x' x rest)
    · exact (hend y y' rest').trans (hsnd.symm.append_right _)
  have htaken : (sets [x', x] [y, y']).run f = (sets [x] [y']).run f :=
    run_sets_of_zip [(x', y)] (by simp [hxy'])
  obtain ⟨e, he⟩ := hanswers x hx y' hy'
  cases e with
  | true => exact hdiffer he
  | false =>
      have hnone : (sets [x] [y']).run f = .ok false :=
        run_without_of_not_exists (by simpa using he) _
      cases (htaken.symm.trans hlast).symm.trans hnone

end Plan

end Introspect.Equality
