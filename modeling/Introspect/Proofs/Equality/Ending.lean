import Introspect.Proofs.Equality.Bisimulation
/-!
Deep equality comes to an end. There are only so many pairs of references of a graph, and a pair that asks for others is
seen for the first time; sets may ask again and again, but what was seen in between stays seen.
-/
namespace Introspect.Equality

open World

/-- The pairs seen are pairs of references of the list. -/
def Within (S : List Ref) (seen : Seen) : Prop := ∀ p ∈ seen, p.1 ∈ S ∧ p.2 ∈ S

/-- A comparison that began with some pairs seen answers and has seen more, or fails with one of the faults. -/
def Halts (S : List Ref) (faults : Fault → Prop) (seen : Seen) (result : Except Fault (Bool × Seen)) : Prop :=
  (∃ e seen', result = .ok (e, seen') ∧ seen ⊆ seen' ∧ Within S seen') ∨ ∃ fault, result = .error fault ∧ faults fault

/-- Faults of comparisons of two plain values of the list. -/
def IsPlainFault (w : World) (S : List Ref) (fault : Fault) : Prop :=
  ∃ p ∈ S, ∃ q ∈ S, w.isPlain p = true ∧ w.isPlain q = true ∧ w.Settles (Conversion.plainEqual p q) (.error fault)

variable {w : World} {S : List Ref} {faults : Fault → Prop} {seen : Seen} {a b : Ref}

theorem Within.cons (hseen : Within S seen) (ha : a ∈ S) (hb : b ∈ S) : Within S ((a, b) :: seen) := by
  intro p hp
  rcases List.mem_cons.mp hp with rfl | hp
  · exact ⟨ha, hb⟩
  · exact hseen p hp

theorem Halts.of_subset {seen₀ : Seen} {result : Except Fault (Bool × Seen)} (hsub : seen₀ ⊆ seen)
    (h : Halts S faults seen result) : Halts S faults seen₀ result :=
  h.imp_left fun ⟨e, seen', he, hmore, hwithin⟩ => ⟨e, seen', he, fun _ hm => hmore (hsub hm), hwithin⟩

/-- Two ways to compare that halt alike wherever few enough pairs are unseen make a plan halt alike. -/
theorem halts_run {recur recur' : Ref → Ref → Recall Bool} {bound : Nat}
    (h : ∀ x ∈ S, ∀ y ∈ S, ∀ seen, Within S seen → unseen S seen < bound →
      Halts S faults seen (recur x y seen) ∧ recur' x y seen = recur x y seen)
    {plan : Plan} (hp : plan.Asks fun x y => x ∈ S ∧ y ∈ S) (hseen : Within S seen) (hbound : unseen S seen < bound) :
    Halts S faults seen (plan.run recur seen) ∧ plan.run recur' seen = plan.run recur seen := by
  induction plan generalizing seen with
  | done answer => exact ⟨.inl ⟨answer, seen, rfl, fun _ hm => hm, hseen⟩, rfl⟩
  | ask x y next ih =>
      obtain ⟨⟨hx, hy⟩, hnext⟩ := hp
      obtain ⟨hhalts, hsame⟩ := h x hx y hy seen hseen hbound
      rw [Plan.run_ask, Plan.run_ask, hsame]
      rcases hhalts with ⟨e, seen', he, hsub, hwithin⟩ | ⟨fault, he, hfault⟩
      · rw [he]
        obtain ⟨hhalts, hsame⟩ := ih e (hnext e) hwithin (Nat.lt_of_le_of_lt (unseen_mono hsub) hbound)
        exact ⟨hhalts.of_subset hsub, hsame⟩
      · rw [he]
        exact ⟨.inr ⟨fault, rfl, hfault⟩, rfl⟩

/-- A comparison of two references of the graph halts if it may nest deeper than there are pairs to see, and then it does
not matter how much deeper. -/
theorem halts_remembering (hG : Graph w S)
    (hfault : ∀ x ∈ S, ∀ y ∈ S, ∀ fault, outcome w x y = .settled (.error fault) → faults fault)
    {depth : Nat} (ha : a ∈ S) (hb : b ∈ S) (hseen : Within S seen) (hdepth : unseen S seen < depth) :
    Halts S faults seen (remembering w depth a b seen) ∧
      remembering w (depth + 1) a b seen = remembering w depth a b seen := by
  induction depth generalizing a b seen with
  | zero => exact absurd hdepth (Nat.not_lt_zero _)
  | succ depth ih =>
      change Halts S faults seen ((outcome w a b).run (remembering w depth) (a, b) seen) ∧
        (outcome w a b).run (remembering w (depth + 1)) (a, b) seen = (outcome w a b).run (remembering w depth) (a, b) seen
      cases ho : outcome w a b with
      | settled answer =>
          refine ⟨?_, rfl⟩
          change Halts S faults seen ((·, seen) <$> answer)
          cases answer with
          | ok e => exact .inl ⟨e, seen, rfl, fun _ hm => hm, hseen⟩
          | error fault => exact .inr ⟨fault, rfl, hfault a ha b hb fault ho⟩
      | visit plan =>
          by_cases hmem : (a, b) ∈ seen
          · rw [Outcome.run_visit_of_mem hmem, Outcome.run_visit_of_mem hmem]
            exact ⟨.inl ⟨true, seen, rfl, fun _ hm => hm, hseen⟩, rfl⟩
          · rw [Outcome.run_visit_of_not_mem hmem, Outcome.run_visit_of_not_mem hmem]
            have hbound := Nat.lt_of_lt_of_le (unseen_cons ha hb hmem) (Nat.le_of_lt_succ hdepth)
            have hasks : plan.Asks fun x y => x ∈ S ∧ y ∈ S :=
              (asks_outcome (hG.layout a ha b hb) ho).mono fun x y h => ⟨hG.parts a ha x h.1, hG.parts b hb y h.2⟩
            obtain ⟨hhalts, hsame⟩ := halts_run (fun x hx y hy seen hs hlt => ih hx hy hs hlt) hasks (hseen.cons ha hb) hbound
            exact ⟨hhalts.of_subset fun _ hm => List.mem_cons_of_mem _ hm, hsame⟩

/-- However deep it may nest, as long as that is deeper than there are pairs, a comparison halts alike. -/
theorem remembering_eq (hG : Graph w S)
    (hfault : ∀ x ∈ S, ∀ y ∈ S, ∀ fault, outcome w x y = .settled (.error fault) → faults fault)
    {depth : Nat} (ha : a ∈ S) (hb : b ∈ S) (hseen : Within S seen) (hdepth : unseen S seen < depth) :
    remembering w depth a b seen = remembering w (unseen S seen + 1) a b seen := by
  induction depth, hdepth using Nat.le_induction with
  | base => rfl
  | succ depth hdepth ih => exact (halts_remembering hG hfault ha hb hseen hdepth).2.trans ih

/-! ## Graphs without hooks -/

theorem isPlain_of_hasForm (hnone : ∀ r ∈ S, isValueObject w r = true → w.overloads (w.classOf r) = .none) {r : Ref}
    (hr : r ∈ S) (hf : hasForm w r = true) : w.isPlain r = true := by
  rw [hasForm, converts] at hf
  cases ho : isValueObject w r with
  | true =>
      rw [ho, hnone r hr ho] at hf
      simpa [Overloads.none] using hf
  | false => simpa [ho] using hf

/-- Where no class overloads anything, only two plain values are compared by their forms. -/
theorem isPlainFault_of_outcome (hG : Graph w S)
    (hnone : ∀ r ∈ S, isValueObject w r = true → w.overloads (w.classOf r) = .none) (ha : a ∈ S) (hb : b ∈ S)
    {fault : Fault} (ho : outcome w a b = .settled (.error fault)) : IsPlainFault w S fault := by
  unfold outcome structural at ho
  split at ho
  · cases ho
  split at ho
  · rename_i hforms
    rw [Bool.and_eq_true] at hforms
    have hpa := isPlain_of_hasForm hnone ha hforms.1
    have hpb := isPlain_of_hasForm hnone hb hforms.2
    refine ⟨a, ha, b, hb, hpa, hpb, ?_⟩
    have hsettles := hG.settles_forms ha hb hforms.1 hforms.2
    rw [show w.answer (compareForms a b) = .error fault from Outcome.settled.inj ho] at hsettles
    refine hsettles.mono fun n hn => hn.congr fun v hv => ?_
    rw [compareForms, run_get, hv.ofLimited.isPlain (hG.has a ha), hv.ofLimited.isPlain (hG.has b hb), hpa, hpb]
    rfl
  split at ho
  · cases ho
  split at ho
  · split at ho <;> cases ho
  · cases ho

/-- Deep equality of two references of a graph whose classes overload nothing ends, in whatever order sets hold their
members: it answers, or fails as the comparison of two plain values of the graph does. -/
theorem isEqual_ends (hG : Graph w S)
    (hnone : ∀ r ∈ S, isValueObject w r = true → w.overloads (w.classOf r) = .none) (ha : a ∈ S) (hb : b ∈ S) :
    ∃ x, w.Settles (isEqual a b) x ∧ ∀ fault, x = .error fault → IsPlainFault w S fault := by
  have hfault : ∀ x ∈ S, ∀ y ∈ S, ∀ fault, outcome w x y = .settled (.error fault) → IsPlainFault w S fault :=
    fun x hx y hy fault => isPlainFault_of_outcome hG hnone hx hy
  have hseen : Within S [] := fun p hp => absurd hp List.not_mem_nil
  refine ⟨Prod.fst <$> remembering w (unseen S [] + 1) a b [], ?_, fun fault hx => ?_⟩
  · refine settles_fresh (g := fun n => remembering w n a b)
      (hG.eventually_ready.mono fun n ht => follows_within hG ht n ha hb) ?_
    refine Filter.eventually_atTop.mpr ⟨unseen S [] + 1, fun n hn => ?_⟩
    exact congrArg (Prod.fst <$> ·) (remembering_eq hG hfault ha hb hseen hn)
  · rcases (halts_remembering hG hfault ha hb hseen (Nat.lt_succ_self _)).1 with ⟨e, seen', he, -⟩ | ⟨fault', he, hplain⟩
    · rw [he] at hx
      cases hx
    · rw [he] at hx
      cases hx
      exact hplain

/-- An object with a set that holds it, and a list that leads back to it through a box and a mapping. -/
def knot (start : Nat) : List Cell :=
  [⟨.declared 0, .nothing, [], some [("peers", .cell (start + 1)), ("items", .cell (start + 2))]⟩,
    ⟨.native .set, .members [.cell start], [], none⟩,
    ⟨.native .list, .sequence [.cell start, .cell (start + 3), intRef 1], [], none⟩,
    ⟨.native .scalar, .box (.cell (start + 4)) false, [], none⟩,
    ⟨.native .dict, .mapping [(textRef "node", .cell start)], [], none⟩]

def tangle : World :=
  { Session.initialWorld with
    classes := #[programClass "Node" [.declared 0, .native .object] []]
    cells := (knot 0 ++ knot 5).toArray }

def tangleRefs : List Ref := (List.range 10).map .cell ++ [intRef 1, textRef "node"]

theorem graph_tangle : Graph tangle tangleRefs :=
  graph_of_isData Registry.sound_empty (by decide) (by decide) (by decide)
    (by decide)

/-- Two objects on cycles of every kind. -/
theorem isEqual_ends_tangle :
    Graph tangle tangleRefs ∧
    (∀ r ∈ tangleRefs, isValueObject tangle r = true → tangle.overloads (tangle.classOf r) = .none) ∧
    Ref.cell 0 ∈ tangleRefs ∧ Ref.cell 5 ∈ tangleRefs ∧
    ∃ x, tangle.Settles (isEqual (.cell 0) (.cell 5)) x ∧ ∀ fault, x = .error fault → IsPlainFault tangle tangleRefs fault := by
  have hnone : ∀ r ∈ tangleRefs, isValueObject tangle r = true → tangle.overloads (tangle.classOf r) = .none := by decide
  have ha : Ref.cell 0 ∈ tangleRefs := by decide
  have hb : Ref.cell 5 ∈ tangleRefs := by decide
  exact ⟨graph_tangle, hnone, ha, hb, isEqual_ends graph_tangle hnone ha hb⟩

/-! ## A property under the name of a slot -/

/-- A class with a slot, a child that computes what stands under the name of the slot, and two instances of the child, which
store nothing. -/
def computing : World :=
  { Session.initialWorld with
    classes := #[{ programClass "Base" [.declared 0, .native .object] [("x", .slot "x")] with slots := some ["x"] },
      programClass "Derived" [.declared 1, .declared 0, .native .object] [("x", .property 0)]]
    functions := #[⟨"x", .raise (.raised .argument "computed"), true, none, false, false⟩]
    cells := #[⟨.declared 1, .nothing, [], some []⟩, ⟨.declared 1, .nothing, [], some []⟩] }

/-- The comparison fails as the property does, and the two objects hold nothing, so that no plain values are compared. -/
theorem not_isEqual_ends_computing :
    failed (isEqual (.cell 0) (.cell 1)) computing = some (.raised .argument "computed") ∧
    ∀ r ∈ [Ref.cell 0, Ref.cell 1], computing.isPlain r = false ∧ computing.overloads (computing.classOf r) = .none ∧
      computing.slot? r (.declared 0) "x" = none ∧ computing.dictionary? r = some [] := by
  decide +kernel

end Introspect.Equality
