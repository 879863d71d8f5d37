import Introspect.Proofs.Equality.Chaining
import Introspect.Proofs.Equality.SharedDump
import Introspect.Proofs.Perl.Members
/-!
Sets of plain values in every order that they can hold their members in. If the members can be paired off, then the sets
are found equal in some order, and in all orders exactly if partners can be exchanged.
-/
namespace Introspect.Equality

open World Perl

theorem exists_cell_of_members {w : World} {r : Ref} {items : List Ref} (hb : w.body r = .members items) :
    ∃ i c, r = .cell i ∧ w.cells[i]? = some c ∧ c.body = .members items := by
  cases r with
  | cell i =>
      change (w.cells[i]?).elim Body.nothing (·.body) = _ at hb
      cases hc : w.cells[i]? with
      | none => rw [hc] at hb; cases hb
      | some c => rw [hc] at hb; exact ⟨i, c, rfl, hc, hb⟩
  | entry c key => rcases w.body_entry c key with h | h <;> rw [h] at hb <;> cases hb
  | _ => cases hb

/-- As members are compared: the same object, or equal plain values. -/
noncomputable def compared (w : World) (x y : Ref) : Except Fault Bool :=
  if x = y then .ok true else w.answer (Conversion.plainEqual x y)

def ScalarsEqual (w : World) (x y : Ref) : Prop := w.Settles (Conversion.plainEqual x y) (.ok true)

/-- As members are compared, an object equals itself, whatever it is. -/
def Counterparts (w : World) (x y : Ref) : Prop := x = y ∨ ScalarsEqual w x y

/-- Two sets of plain values of the host's own classes. Comparing a member of one with a member of the other answers. -/
structure PlainSets (w : World) (a b : Ref) (xs ys : List Ref) : Prop where
  sound : w.registry.Sound
  left : w.body a = .members xs
  right : w.body b = .members ys
  ordinary : ∀ x ∈ xs ++ ys, ∃ atom, w.IsOrdinary x atom
  answers : ∀ x ∈ xs, ∀ y ∈ ys, ∃ e, w.Settles (Conversion.plainEqual x y) (.ok e)

variable {w v : World} {a b p q r : Ref} {x y : Atom} {xs ys xs' ys' : List Ref}

theorem compared_of_ordinary (hp : w.IsOrdinary p x) (hq : w.IsOrdinary q y) :
    compared w p q = if p = q then .ok true else x.same y := by
  rw [compared, (settles_same hp hq).answer_eq]

theorem compared_eq_true_iff (hp : w.IsOrdinary p x) (hq : w.IsOrdinary q y) :
    compared w p q = .ok true ↔ Counterparts w p q := by
  rw [compared_of_ordinary hp hq, Counterparts, ScalarsEqual, settles_same_iff hp hq]
  by_cases hpq : p = q <;> simp [hpq]

theorem outcome_of_ordinary (hp : w.IsOrdinary p x) (hq : w.IsOrdinary q y) :
    outcome w p q = .settled (if p = q then .ok true else x.same y) := by
  have hforms := settles_compareForms_of_isOrdinary hp hq
  rw [formsEqual_eq_same hp hq] at hforms
  by_cases hpq : p = q
  · simp [outcome, hpq]
  · simp [outcome, hpq, hasForm_of_body hp.body, hasForm_of_body hq.body, hforms.answer_eq]

theorem outcome_of_other_length (hne : a ≠ b) (ha : w.body a = .members xs) (hb : w.body b = .members ys)
    (hlen : xs.length ≠ ys.length) : outcome w a b = .visit (.done false) := by
  have hplan : contentPlan w .set a b = .done false := by
    simp only [contentPlan, ha, hb]
    exact if_pos hlen
  simp only [outcome, if_neg hne, hasForm_of_members ha, hasForm_of_members hb, Bool.and_self, Bool.or_self,
    Bool.false_eq_true, structural, refType?, ha, hb, ne_eq, not_true_eq_false, ↓reduceIte, hplan]

theorem remembering_ordinary (hp : w.IsOrdinary p x) (hq : w.IsOrdinary q y) (depth : Nat) :
    remembering w (depth + 1) p q = keeping (compared w) p q := by
  funext seen
  rw [remembering, step, outcome_of_ordinary hp hq, keeping, compared_of_ordinary hp hq]
  cases (if p = q then .ok true else x.same y : Except Fault Bool) <;> rfl

theorem isOrdinary_rearranged (hv : w.Rearranges v) (h : w.IsOrdinary r x) : v.IsOrdinary r x where
  has := hv.outline.has h.has
  body := (hv.body_eq (by rw [h.body]; simp)).trans h.body
  cls := (hv.outline.classOf r).trans h.cls

namespace PlainSets

variable (h : PlainSets w a b xs ys)
include h

theorem has : w.Has a ∧ w.Has b := by
  constructor
  · obtain ⟨i, c, rfl, hc, -⟩ := exists_cell_of_members h.left
    exact (Array.getElem?_eq_some_iff.mp hc).1
  · obtain ⟨i, c, rfl, hc, -⟩ := exists_cell_of_members h.right
    exact (Array.getElem?_eq_some_iff.mp hc).1

/-- A reference of the two sets and their members holds members of its own, or is plain. -/
theorem content (r : Ref) (hr : r ∈ a :: b :: (xs ++ ys)) :
    (∃ items, w.body r = .members items ∧ ∀ c ∈ items, c ∈ xs ++ ys) ∨ ∃ x, w.IsOrdinary r x := by
  rcases List.mem_cons.mp hr with rfl | hr
  · exact .inl ⟨xs, h.left, fun c hc => List.mem_append_left _ hc⟩
  rcases List.mem_cons.mp hr with rfl | hr
  · exact .inl ⟨ys, h.right, fun c hc => List.mem_append_right _ hc⟩
  · exact .inr (h.ordinary r hr)

theorem graph : Graph w (a :: b :: (xs ++ ys)) := by
  have hcontent := h.content
  have hobject (r : Ref) (hr : r ∈ a :: b :: (xs ++ ys)) : w.isObject r = false := by
    rcases hcontent r hr with ⟨items, hb, -⟩ | ⟨x, hx⟩
    · simp only [isObject, hb]
    · simp only [isObject, hx.body]
  refine graph_of_isData h.sound (fun r hr => ?_) (fun r hr => ?_) (fun r hr c hc => ?_) fun r hr r' hr' _ => ?_
  · rcases List.mem_cons.mp hr with rfl | hr
    · exact h.has.1
    rcases List.mem_cons.mp hr with rfl | hr
    · exact h.has.2
    · obtain ⟨x, hx⟩ := h.ordinary r hr
      exact hx.has
  · rcases hcontent r hr with ⟨items, hb, -⟩ | ⟨x, hx⟩
    · simp only [isData, hb]
    · simp only [isData, hx.body, hx.cls, decide_true]
  · rcases hcontent r hr with ⟨items, hb, hitems⟩ | ⟨x, hx⟩
    · simp only [World.parts, hb] at hc
      exact List.mem_cons_of_mem _ (List.mem_cons_of_mem _ (hitems c hc))
    · simp [World.parts, World.items?, hx.body, hobject r hr] at hc
  · rw [hobject r hr, hobject r' hr']

theorem ordinary_left (hx : p ∈ xs) : ∃ x, w.IsOrdinary p x := h.ordinary p (List.mem_append_left _ hx)

theorem ordinary_right (hy : q ∈ ys) : ∃ y, w.IsOrdinary q y := h.ordinary q (List.mem_append_right _ hy)

/-- The answer is that of one step wherever its parts can be compared. -/
theorem settles_of_step (hp : p ∈ a :: b :: (xs ++ ys)) (hq : q ∈ a :: b :: (xs ++ ys)) {res : Except Fault Bool}
    (hstep : ∀ depth, Prod.fst <$> step w (remembering w (depth + 1)) p q [] = res) : w.Settles (isEqual p q) res := by
  have hG := h.graph
  refine settles_fresh (g := fun n => remembering w n p q)
    (hG.eventually_ready.mono fun n ht => follows_within hG ht n hp hq) ?_
  refine Filter.eventually_atTop.mpr ⟨2, fun n hn => ?_⟩
  obtain ⟨depth, rfl⟩ : ∃ depth, n = depth + 2 := ⟨n - 2, by omega⟩
  exact hstep depth

/-- Two other sets compare as their members do, in the order in which they stand. -/
theorem settles_isEqual (hne : a ≠ b) : w.Settles (isEqual a b)
    (if xs.length = ys.length then (Plan.sets xs ys).run (compared w) else .ok false) := by
  refine h.settles_of_step (by simp) (by simp) fun depth => ?_
  by_cases hlen : xs.length = ys.length
  · have hplan : (Plan.sets xs ys).run (remembering w (depth + 1)) = (Plan.sets xs ys).run (keeping (compared w)) := by
      refine run_congr (P := fun x y => x ∈ xs ∧ y ∈ ys) (fun x y hxy => ?_) (.sets fun x hx y hy => ⟨hx, hy⟩)
      obtain ⟨_, hx⟩ := h.ordinary_left hxy.1
      obtain ⟨_, hy⟩ := h.ordinary_right hxy.2
      exact remembering_ordinary hx hy depth
    rw [if_pos hlen, step, outcome_of_members hne h.left h.right hlen,
      Outcome.run_visit_of_not_mem List.not_mem_nil, hplan, run_keeping]
    cases (Plan.sets xs ys).run (compared w) <;> rfl
  · rw [if_neg hlen, step, outcome_of_other_length hne h.left h.right hlen]
    rfl

theorem rearranged (hv : w.Rearranges v) : ∃ xs' ys', xs.Perm xs' ∧ ys.Perm ys' ∧ PlainSets v a b xs' ys' := by
  obtain ⟨xs', hxs', hx⟩ := hv.body_members h.left
  obtain ⟨ys', hys', hy⟩ := hv.body_members h.right
  refine ⟨xs', ys', hx, hy, ⟨hv.outline.registry ▸ h.sound, hxs', hys', fun r hr => ?_, fun x hx' y hy' => ?_⟩⟩
  · obtain ⟨x, hord⟩ := h.ordinary r ((hx.append hy).symm.subset hr)
    exact ⟨x, isOrdinary_rearranged hv hord⟩
  · obtain ⟨_, hxo⟩ := h.ordinary_left (hx.symm.subset hx')
    obtain ⟨_, hyo⟩ := h.ordinary_right (hy.symm.subset hy')
    obtain ⟨e, he⟩ := h.answers x (hx.symm.subset hx') y (hy.symm.subset hy')
    rw [settles_same_iff hxo hyo] at he
    exact ⟨e, (settles_same_iff (isOrdinary_rearranged hv hxo) (isOrdinary_rearranged hv hyo)).mpr he⟩

/-- Both sets can hold their members in any order. -/
theorem exists_rearranged (hne : a ≠ b) (hx : xs.Perm xs') (hy : ys.Perm ys') :
    ∃ v, w.Rearranges v ∧ PlainSets v a b xs' ys' := by
  obtain ⟨i, c, rfl, hc, hcb⟩ := exists_cell_of_members h.left
  obtain ⟨j, d, rfl, hd, hdb⟩ := exists_cell_of_members h.right
  have hij : i ≠ j := fun hij => hne (congrArg Ref.cell hij)
  have hd' : (withMembers w i xs').cells[j]? = some d := by
    rw [withMembers, Array.getElem?_modify, if_neg hij, hd]
  have hv := (rearranges_withMembers hc hcb hx).trans (rearranges_withMembers hd' hdb hy)
  obtain ⟨xs'', ys'', -, -, hsets⟩ := h.rearranged hv
  refine ⟨_, hv, ?_⟩
  have hleft : (withMembers (withMembers w i xs') j ys').body (.cell i) = .members xs' := by
    simp [withMembers, World.body, Array.getElem?_modify, hc, hij.symm]
  have hright : (withMembers (withMembers w i xs') j ys').body (.cell j) = .members ys' := by
    simp [withMembers, World.body, Array.getElem?_modify, hd, hij]
  cases hsets.left.symm.trans hleft
  cases hsets.right.symm.trans hright
  exact hsets

theorem compared_rearranged (hv : w.Rearranges v) (hp : p ∈ xs ++ ys) (hq : q ∈ xs ++ ys) :
    compared v p q = compared w p q := by
  obtain ⟨x, hx⟩ := h.ordinary p hp
  obtain ⟨y, hy⟩ := h.ordinary q hq
  rw [compared_of_ordinary hx hy, compared_of_ordinary (isOrdinary_rearranged hv hx) (isOrdinary_rearranged hv hy)]

theorem compared_iff (x : Ref) (hx : x ∈ xs) (y : Ref) (hy : y ∈ ys) :
    compared w x y = .ok true ↔ Counterparts w x y := by
  obtain ⟨_, hxo⟩ := h.ordinary_left hx
  obtain ⟨_, hyo⟩ := h.ordinary_right hy
  exact compared_eq_true_iff hxo hyo

theorem compared_answers (x : Ref) (hx : x ∈ xs) (y : Ref) (hy : y ∈ ys) : ∃ e, compared w x y = .ok e := by
  obtain ⟨e, he⟩ := h.answers x hx y hy
  rw [compared, he.answer_eq]
  by_cases hxy : x = y
  · exact ⟨true, if_pos hxy⟩
  · exact ⟨e, if_neg hxy⟩

/-- In whatever order the sets hold their members, they are found equal if each takes an equal one in that order. -/
theorem settles_rearranged (hv : w.Rearranges v) (hsets : PlainSets v a b xs' ys') (hx : xs.Perm xs') (hy : ys.Perm ys')
    (hne : a ≠ b) (hlen : xs.length = ys.length) :
    v.Settles (isEqual a b) ((Plan.sets xs' ys').run (compared w)) := by
  have hrun : (Plan.sets xs' ys').run (compared v) = (Plan.sets xs' ys').run (compared w) := by
    refine run_congr (P := fun x y => x ∈ xs' ∧ y ∈ ys') (fun x y hxy => ?_) (.sets fun x hx y hy => ⟨hx, hy⟩)
    exact h.compared_rearranged hv (List.mem_append_left _ (hx.symm.subset hxy.1))
      (List.mem_append_right _ (hy.symm.subset hxy.2))
  have hsettles := hsets.settles_isEqual hne
  rwa [if_pos (hx.length_eq.symm.trans (hlen.trans hy.length_eq)), hrun] at hsettles

theorem settles_self : w.Settles (isEqual a a) (.ok true) := by
  refine h.settles_of_step (by simp) (by simp) fun depth => ?_
  rw [step, outcome, if_pos rfl]
  rfl

end PlainSets

section

variable (h : PlainSets w a b xs ys)
include h

/-- Members that can be paired off are paired off in some order. -/
theorem PlainSets.exists_paired (hne : a ≠ b) (hpairs : PairsOff (Counterparts w) xs ys) :
    ∃ v, w.Rearranges v ∧ v.Settles (isEqual a b) (.ok true) := by
  obtain ⟨pairs, hx, hy, htrue⟩ := (pairsOff_congr h.compared_iff).mpr hpairs
  obtain ⟨v, hv, hsets⟩ := h.exists_rearranged hne hx.symm hy.symm
  refine ⟨v, hv, ?_⟩
  rw [← Plan.run_sets_of_pairing pairs htrue]
  exact h.settles_rearranged hv hsets hx.symm hy.symm hne hpairs.length_eq

/-- Partners can be exchanged if members are paired off in every order. -/
theorem PlainSets.exchanges (hne : a ≠ b) (hlen : xs.length = ys.length)
    (hall : ∀ v, w.Rearranges v → v.Settles (isEqual a b) (.ok true)) : Exchanges (Counterparts w) xs ys := by
  refine (exchanges_congr h.compared_iff).mp ?_
  refine Plan.exchanges_of_run_sets h.compared_answers hlen fun xs' ys' hx hy => ?_
  obtain ⟨v, hv, hsets⟩ := h.exists_rearranged hne hx hy
  exact (h.settles_rearranged hv hsets hx hy hne hlen).unique (hall v hv)

/-- Each order pairs all members off, or finds the sets unequal; it does not miss where partners can be exchanged. -/
theorem PlainSets.ends (hne : a ≠ b) (hv : w.Rearranges v) :
    (v.Settles (isEqual a b) (.ok true) ∧ PairsOff (Counterparts w) xs ys) ∨
      (v.Settles (isEqual a b) (.ok false) ∧
        ¬ (PairsOff (Counterparts w) xs ys ∧ Exchanges (Counterparts w) xs ys)) := by
  obtain ⟨xs', ys', hx, hy, hsets⟩ := h.rearranged hv
  have hanswers : ∀ x ∈ xs', ∀ y ∈ ys', ∃ e, compared w x y = .ok e := fun x hxm y hym =>
    h.compared_answers x (hx.symm.subset hxm) y (hy.symm.subset hym)
  by_cases hlen : xs.length = ys.length
  · have hlen' : xs'.length = ys'.length := hx.length_eq.symm.trans (hlen.trans hy.length_eq)
    have hsettles := h.settles_rearranged hv hsets hx hy hne hlen
    cases hrun : (Plan.sets xs' ys').run (compared w) with
    | error fault => rcases Plan.run_sets_cases hanswers with he | ⟨he, -⟩ <;> cases he.symm.trans hrun
    | ok e =>
        rw [hrun] at hsettles
        cases e with
        | true =>
            obtain ⟨pairs, hfst, hsnd, hpairs⟩ := Plan.exists_pairs_of_run_sets hanswers hlen' hrun
            have hoff : PairsOff (fun x y => compared w x y = .ok true) xs' ys' :=
              ⟨pairs, hfst ▸ .refl _, hsnd, hpairs⟩
            exact .inl ⟨hsettles, (pairsOff_congr h.compared_iff).mp (hoff.perm hx.symm hy.symm)⟩
        | false =>
            refine .inr ⟨hsettles, fun ⟨hpairs, hex⟩ => ?_⟩
            have hfound := Plan.run_sets_of_exchanges hanswers
              (((exchanges_congr h.compared_iff).mpr hex).perm hx hy)
              (((pairsOff_congr h.compared_iff).mpr hpairs).perm hx hy)
            cases hrun.symm.trans hfound
  · have hsettles := hsets.settles_isEqual hne
    rw [if_neg fun hlen' => hlen (hx.length_eq.trans (hlen'.trans hy.length_eq.symm))] at hsettles
    exact .inr ⟨hsettles, fun ⟨hpairs, _⟩ => hlen hpairs.length_eq⟩

/-- In every order, sets of plain values are found equal exactly if their members can be paired off as equal scalars:
this holds if and only if, where the members can be paired off as they are compared, they can be paired off as equal
scalars, and partners can be exchanged. -/
theorem isEqual_sets_iff :
    (∀ v, w.Rearranges v → ∃ e, v.Settles (isEqual a b) (.ok e) ∧ (e = true ↔ PairsOff (ScalarsEqual w) xs ys)) ↔
      (PairsOff (Counterparts w) xs ys →
        PairsOff (ScalarsEqual w) xs ys ∧ (a = b ∨ Exchanges (Counterparts w) xs ys)) := by
  have hcounterparts (hscalars : PairsOff (ScalarsEqual w) xs ys) : PairsOff (Counterparts w) xs ys :=
    hscalars.mono fun x _ y _ hxy => .inr hxy
  by_cases hab : a = b
  · subst hab
    obtain rfl : xs = ys := Body.members.inj (h.left.symm.trans h.right)
    have hself (v : World) (hv : w.Rearranges v) : v.Settles (isEqual a a) (.ok true) := by
      obtain ⟨xs', ys', -, -, hsets⟩ := h.rearranged hv
      exact hsets.settles_self
    constructor
    · intro hall _
      obtain ⟨e, he, hiff⟩ := hall w (.refl w)
      cases he.unique (hself w (.refl w))
      exact ⟨hiff.mp rfl, .inl rfl⟩
    · intro hcond v hv
      exact ⟨true, hself v hv, iff_of_true rfl (hcond (pairsOff_self fun x _ => .inl rfl)).1⟩
  constructor
  · intro hall hpairs
    have hanswer (v : World) (hv : w.Rearranges v) (hscalars : PairsOff (ScalarsEqual w) xs ys) :
        v.Settles (isEqual a b) (.ok true) := by
      obtain ⟨e, he, hiff⟩ := hall v hv
      exact hiff.mpr hscalars ▸ he
    obtain ⟨v, hv, hequal⟩ := h.exists_paired hab hpairs
    obtain ⟨e, he, hiff⟩ := hall v hv
    cases he.unique hequal
    have hscalars := hiff.mp rfl
    exact ⟨hscalars, .inr (h.exchanges hab hpairs.length_eq fun v hv => hanswer v hv hscalars)⟩
  · intro hcond v hv
    rcases h.ends hab hv with ⟨htrue, hpairs⟩ | ⟨hfalse, hmissed⟩
    · exact ⟨true, htrue, iff_of_true rfl (hcond hpairs).1⟩
    · refine ⟨false, hfalse, iff_of_false Bool.false_ne_true fun hscalars => hmissed ?_⟩
      exact ⟨hcounterparts hscalars, (hcond (hcounterparts hscalars)).2.resolve_left hab⟩

end

/-! ## Sets in which partners can be exchanged -/

def holdsBytes (w : World) (r : Ref) : Bool := (w.atom? r).any Atom.isBytes

/-- Nothing, an integer, a floating-point number, a text or bytes. -/
def IsUnambiguous (w : World) (r : Ref) : Prop := ∃ x, w.IsOrdinary r x ∧ Common x ∧ ∀ b, x ≠ .bool b

theorem holdsBytes_of_ordinary (h : w.IsOrdinary r x) : holdsBytes w r = x.isBytes := by
  rw [holdsBytes, h.atom?_eq]
  rfl

theorem scalarsEqual_iff_meets (hp : w.IsOrdinary p x) (hq : w.IsOrdinary q y) (hx : Common x) (hy : Common y)
    (hb : (x.isBytes && y.isBytes) = false) (h : ∃ e, w.Settles (Conversion.plainEqual p q) (.ok e)) :
    ScalarsEqual w p q ↔ Meets x y := by
  obtain ⟨e, he⟩ := h
  rw [settles_same_iff hp hq] at he
  rw [ScalarsEqual, settles_same_iff hp hq, he, Except.ok.injEq, eq_true_iff_meets hx hy hb he]

theorem counterparts_iff_meets (hp : w.IsOrdinary p x) (hq : w.IsOrdinary q y) (hx : Common x) (hy : Common y)
    (hb : (x.isBytes && y.isBytes) = false) (h : ∃ e, w.Settles (Conversion.plainEqual p q) (.ok e)) :
    Counterparts w p q ↔ Meets x y := by
  rw [Counterparts, scalarsEqual_iff_meets hp hq hx hy hb h]
  refine or_iff_right_of_imp fun hpq => ?_
  subst hpq
  cases hp.body.symm.trans hq.body
  exact meets_self x

/-- Without truth values, and with bytes in one of the sets only, what equals the same has its sense in common. -/
theorem PlainSets.exchanges_of_unambiguous (h : PlainSets w a b xs ys) (hkinds : ∀ r ∈ xs ++ ys, IsUnambiguous w r)
    (hbytes : (∀ x ∈ xs, holdsBytes w x = false) ∨ ∀ y ∈ ys, holdsBytes w y = false) :
    (∀ x ∈ xs, ∀ y ∈ ys, Counterparts w x y ↔ ScalarsEqual w x y) ∧ Exchanges (Counterparts w) xs ys := by
  have hnot {p q : Ref} {x y : Atom} (hp : p ∈ xs) (hq : q ∈ ys) (hx : w.IsOrdinary p x) (hy : w.IsOrdinary q y) :
      (x.isBytes && y.isBytes) = false := by
    rw [← holdsBytes_of_ordinary hx, ← holdsBytes_of_ordinary hy, Bool.and_eq_false_iff]
    exact hbytes.imp (fun hxs => hxs p hp) fun hys => hys q hq
  constructor
  · intro p hp q hq
    obtain ⟨x, hx, hxc, -⟩ := hkinds p (List.mem_append_left _ hp)
    obtain ⟨y, hy, hyc, -⟩ := hkinds q (List.mem_append_right _ hq)
    have hb := hnot hp hq hx hy
    rw [counterparts_iff_meets hx hy hxc hyc hb (h.answers p hp q hq),
      scalarsEqual_iff_meets hx hy hxc hyc hb (h.answers p hp q hq)]
  · intro p hp p' hp' q hq q' hq'
    obtain ⟨x, hx, hxc, -⟩ := hkinds p (List.mem_append_left _ hp)
    obtain ⟨x', hx', hxc', hbool⟩ := hkinds p' (List.mem_append_left _ hp')
    obtain ⟨y, hy, hyc, hbool'⟩ := hkinds q (List.mem_append_right _ hq)
    obtain ⟨y', hy', hyc', -⟩ := hkinds q' (List.mem_append_right _ hq')
    rw [counterparts_iff_meets hx hy hxc hyc (hnot hp hq hx hy) (h.answers p hp q hq),
      counterparts_iff_meets hx' hy hxc' hyc (hnot hp' hq hx' hy) (h.answers p' hp' q hq),
      counterparts_iff_meets hx' hy' hxc' hyc' (hnot hp' hq' hx' hy') (h.answers p' hp' q' hq'),
      counterparts_iff_meets hx hy' hxc hyc' (hnot hp hq' hx hy') (h.answers p hp q' hq')]
    intro hxy hxy' hxy''
    exact (hxy.trans hxy'.symm hbool').trans hxy'' hbool

/-! ## Two pairs of sets -/

/-- Values that need no place are ordinary everywhere. -/
theorem plainSets_of_atoms (us vs : List Atom) (hs : w.registry.Sound) (ha : w.body a = .members (us.map .atom))
    (hb : w.body b = .members (vs.map .atom)) (h : ∀ x ∈ us, ∀ y ∈ vs, (x.same y).toBool = true) :
    PlainSets w a b (us.map .atom) (vs.map .atom) where
  sound := hs
  left := ha
  right := hb
  ordinary r hr := by
    rw [← List.map_append] at hr
    obtain ⟨x, -, rfl⟩ := List.mem_map.mp hr
    exact ⟨x, .atom w x⟩
  answers p hp q hq := by
    obtain ⟨x, hx, rfl⟩ := List.mem_map.mp hp
    obtain ⟨y, hy, rfl⟩ := List.mem_map.mp hq
    have hanswer := h x hx y hy
    cases he : x.same y with
    | error fault => rw [he] at hanswer; cases hanswer
    | ok e => exact ⟨e, (settles_same_iff (.atom w x) (.atom w y)).mpr he⟩

theorem scalarsEqual_atoms (h : x.same y = .ok true) : ScalarsEqual w (.atom x) (.atom y) :=
  (settles_same_iff (.atom w x) (.atom w y)).mpr h

/-- A number and a text, and their texts the other way round; two bytes, and a numeral with one of them. -/
def drawers : World :=
  { Session.initialWorld with
    cells := #[⟨.native .set, .members [intRef 1, textRef "x"], [], none⟩,
      ⟨.native .set, .members [textRef "x", textRef "1"], [], none⟩,
      ⟨.native .set, .members [bytesRef [0x30], bytesRef [0x2B, 0x30]], [], none⟩,
      ⟨.native .set, .members [textRef "00", bytesRef [0x30]], [], none⟩] }

/-- The number takes its text in both orders of the texts. -/
theorem isEqual_sets_drawers :
    drawers.Settles (isEqual (.cell 0) (.cell 1)) (.ok true) ∧
      (withMembers drawers 1 [textRef "1", textRef "x"]).Settles (isEqual (.cell 0) (.cell 1)) (.ok true) := by
  have hsets : PlainSets drawers (.cell 0) (.cell 1) [intRef 1, textRef "x"] [textRef "x", textRef "1"] :=
    plainSets_of_atoms [Atom.int 1, .text "x"] [.text "x", .text "1"] Registry.sound_empty rfl rfl (by decide)
  have hkinds (r : Ref) (hr : r ∈ [intRef 1, textRef "x"] ++ [textRef "x", textRef "1"]) : IsUnambiguous drawers r := by
    simp only [List.cons_append, List.nil_append, List.mem_cons, List.not_mem_nil, or_false] at hr
    rcases hr with rfl | rfl | rfl | rfl
    · exact ⟨_, .atom drawers (Atom.int 1), .int 1, by simp [Atom.int]⟩
    · exact ⟨_, .atom drawers (.text "x"), .text _, by simp⟩
    · exact ⟨_, .atom drawers (.text "x"), .text _, by simp⟩
    · exact ⟨_, .atom drawers (.text "1"), .text _, by simp⟩
  have hoff : PairsOff (ScalarsEqual drawers) [intRef 1, textRef "x"] [textRef "x", textRef "1"] := by
    refine ⟨[(intRef 1, textRef "1"), (textRef "x", textRef "x")], .refl _, .swap .., fun p hp => ?_⟩
    simp only [List.mem_cons, List.not_mem_nil, or_false] at hp
    rcases hp with rfl | rfl
    · exact scalarsEqual_atoms (by decide)
    · exact scalarsEqual_atoms (by decide)
  obtain ⟨hsame, hex⟩ := hsets.exchanges_of_unambiguous hkinds (.inl (by decide))
  have hall := (isEqual_sets_iff hsets).mpr fun hpairs => ⟨(pairsOff_congr hsame).mp hpairs, .inr hex⟩
  have hequal (v : World) (hv : drawers.Rearranges v) : v.Settles (isEqual (.cell 0) (.cell 1)) (.ok true) := by
    obtain ⟨e, he, hiff⟩ := hall v hv
    exact hiff.mpr hoff ▸ he
  exact ⟨hequal drawers (.refl _), hequal _ (rearranges_withMembers rfl rfl (.swap ..))⟩

/-- Zero in bytes takes the numeral, and then signed zero has no partner; the other way round both have one. -/
theorem not_isEqual_sets_drawers :
    PairsOff (ScalarsEqual drawers) [bytesRef [0x30], bytesRef [0x2B, 0x30]] [textRef "00", bytesRef [0x30]] ∧
      answered (isEqual (.cell 2) (.cell 3)) drawers = some false ∧
      answered (isEqual (.cell 2) (.cell 3)) (withMembers drawers 3 [bytesRef [0x30], textRef "00"]) = some true := by
  refine ⟨?_, by decide +kernel, by decide +kernel⟩
  refine ⟨[(bytesRef [0x30], bytesRef [0x30]), (bytesRef [0x2B, 0x30], textRef "00")], .refl _, .swap ..,
    fun p hp => ?_⟩
  simp only [List.mem_cons, List.not_mem_nil, or_false] at hp
  rcases hp with rfl | rfl
  · exact scalarsEqual_atoms (by decide)
  · exact scalarsEqual_atoms (by decide)

end Introspect.Equality
