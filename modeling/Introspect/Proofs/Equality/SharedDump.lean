import Introspect.Proofs.Equality.Matching
import Introspect.Proofs.Equality.Memory
import Introspect.Proofs.Perl.Sharing
/-!
Equality of values that share a dump. A dump does not tell sets from sequences, nor all plain values from each other;
values of one type that share a dump are equal where nothing inside them is confused in that way.
-/
namespace Introspect.Equality

open World Perl

/-- Plain values that are unequal although they may share a dump. -/
def areClashing (w : World) (a b : Ref) : Bool :=
  match w.body a, w.body b with
  | .atom x, .atom y => clashes x y
  | _, _ => false

/-- Keys share a literal exactly if they are one key. -/
def LiteralsTell (w : World) (keys : List Ref) : Prop :=
  ∀ k ∈ keys, ∀ k' ∈ keys, ShareLiteral w k k' ↔ w.SameKey k k'

/-- Two values of one kind and the pairs that stand opposite each other in them: the elements at one index of
sequences, the values under one key of mappings, and members of sets that are paired off by their dumps. Texts among them
can be read if they look numeric, literals tell keys, and members can exchange partners. -/
inductive Opposite (w : World) (a b : Ref) : List (Ref × Ref) → Prop where
  | same : a = b → Opposite w a b []
  | plain {x y : Atom} : w.body a = .atom x → w.body b = .atom y → Readable x → Readable y → Opposite w a b []
  | items {xs ys : List Ref} : w.items? a = some xs → w.items? b = some ys → Opposite w a b (xs.zip ys)
  | values {xs ys : List (Ref × Ref)} : w.body a = .mapping xs → w.body b = .mapping ys →
      LiteralsTell w (xs.map (·.1) ++ ys.map (·.1)) → Opposite w a b ((valuePairs w xs ys).filterMap id)
  | members {xs ys : List Ref} {pairs : List (Ref × Ref)} : w.body a = .members xs → w.body b = .members ys →
      (pairs.map (·.1)).Perm xs → (pairs.map (·.2)).Perm ys → (∀ p ∈ pairs, ShareDump w p.1 p.2) →
      Exchangeable (truth w) xs ys → Opposite w a b pairs

/-- Values of one kind, in which there are values of one kind opposite each other at every place, and nowhere plain
values that clash. -/
inductive Unconfused (w : World) : Ref → Ref → Prop where
  | intro {a b : Ref} {pairs : List (Ref × Ref)} : Opposite w a b pairs → (∀ p ∈ pairs, areClashing w p.1 p.2 = false) →
      (∀ p ∈ pairs, Unconfused w p.1 p.2) → Unconfused w a b

/-- The members of sets are plain values. -/
def PlainMembers (w : World) (S : List Ref) : Prop :=
  ∀ r ∈ S, ∀ items, w.body r = .members items → ∀ x ∈ items, w.isPlain x = true

variable {w : World} {S : List Ref} {a b : Ref} {pairs : List (Ref × Ref)}

/-! ## What stands opposite -/

theorem mem_filterMap_id {p : Ref × Ref} {children : List (Option (Ref × Ref))} :
    p ∈ children.filterMap id ↔ some p ∈ children := by
  simp only [List.mem_filterMap, id_eq, exists_eq_right]

/-- Under each key of the first mapping there is a value in the second, and the two share a dump. -/
theorem allIn_shareDump (hw : Builtins w S) (ha : a ∈ S) (hb : b ∈ S) (hdump : ShareDump w a b)
    {xs ys : List (Ref × Ref)} (hx : w.body a = .mapping xs) (hy : w.body b = .mapping ys)
    (htell : LiteralsTell w (xs.map (·.1) ++ ys.map (·.1))) :
    xs.length = ys.length ∧ AllIn (fun x y => (w.Part a x ∧ w.Part b y) ∧ ShareDump w x y) (valuePairs w xs ys) := by
  obtain ⟨found, found', hp, hp', hshare⟩ := hw.shareDump_entries ha hb hdump hx hy
  refine ⟨hp.length_eq.symm.trans (hshare.length_eq.trans hp'.length_eq), allIn_valuePairs.mpr fun e he => ?_⟩
  have hkey {e : Ref × Ref} (he : e ∈ xs ∨ e ∈ ys) : e.1 ∈ xs.map (·.1) ++ ys.map (·.1) :=
    List.mem_append.mpr (he.imp (List.mem_map_of_mem) (List.mem_map_of_mem))
  obtain ⟨e', he', hliteral, hvalue⟩ := exists_of_forall₂ hshare (hp.symm.subset he)
  have he' := hp'.subset he'
  have hsame : w.SameKey e'.1 e.1 := (htell _ (hkey (.inr he')) _ (hkey (.inl he))).mp hliteral.symm
  obtain ⟨e₁, hfound⟩ : ∃ e₁, w.entryFor? e.1 ys = some e₁ :=
    Option.isSome_iff_exists.mp (List.find?_isSome.mpr ⟨e', he', by simpa using hsame⟩)
  have he₁ : e₁ ∈ ys := List.mem_of_find?_eq_some hfound
  have hsame₁ : w.SameKey e₁.1 e.1 := by simpa using List.find?_some hfound
  have hboth : ShareLiteral w e₁.1 e'.1 := ((htell _ (hkey (.inr he₁)) _ (hkey (.inl he))).mpr hsame₁).trans hliteral
  -- The entry that is found is the one that was written: keys of one mapping differ.
  have hone : w.SameKey e₁.1 e'.1 ∧ w.SameKey e'.1 e₁.1 :=
    ⟨(htell _ (hkey (.inr he₁)) _ (hkey (.inr he'))).mp hboth,
      (htell _ (hkey (.inr he')) _ (hkey (.inr he₁))).mp hboth.symm⟩
  have hsymm : Std.Symm fun e e' : Ref × Ref => ¬ (w.SameKey e.1 e'.1 ∧ w.SameKey e'.1 e.1) :=
    ⟨fun _ _ h hk => h hk.symm⟩
  have hdistinct : ys.Pairwise fun e e' => ¬ (w.SameKey e.1 e'.1 ∧ w.SameKey e'.1 e.1) :=
    (hw.keys b hb ys hy).imp fun h hk => h hk.1
  obtain rfl : e₁ = e' := by
    by_contra hne
    exact hdistinct.forall he₁ he' hne hone
  exact ⟨e₁, hfound, ⟨.inl (.value (k := e.1) hx he), .inl (.value (k := e₁.1) hy he₁)⟩, hvalue⟩

/-- What stands opposite in values that share a dump are parts that share dumps. -/
theorem Opposite.inside (h : Opposite w a b pairs) (hw : Builtins w S) (ha : a ∈ S) (hb : b ∈ S)
    (hdump : ShareDump w a b) : ∀ p ∈ pairs, (w.Part a p.1 ∧ w.Part b p.2) ∧ ShareDump w p.1 p.2 := by
  intro p hp
  cases h with
  | same _ => exact absurd hp List.not_mem_nil
  | plain _ _ _ _ => exact absurd hp List.not_mem_nil
  | items hx hy =>
      have hmem := List.of_mem_zip hp
      refine ⟨⟨.inl (.item hx hmem.1), .inl (.item hy hmem.2)⟩, ?_⟩
      exact (List.forall₂_iff_zip.mp (hw.shareDump_items ha hb hdump hx hy)).2 hp
  | values hx hy htell =>
      obtain ⟨q, hq, hboth⟩ := (allIn_shareDump hw ha hb hdump hx hy htell).2 _ (mem_filterMap_id.mp hp)
      cases hq
      exact hboth
  | members hx hy hfirst hsecond hshare _ =>
      refine ⟨⟨.inr (.member hx ?_), .inr (.member hy ?_)⟩, hshare p hp⟩
      · exact hfirst.subset (List.mem_map_of_mem hp)
      · exact hsecond.subset (List.mem_map_of_mem hp)

theorem outcome_of_plain (hw : Builtins w S) (ha : a ∈ S) (hb : b ∈ S) (hne : a ≠ b) {x y : Atom}
    (hx : w.body a = .atom x) (hy : w.body b = .atom y) :
    outcome w a b = .settled (formsEqual x (comparedText w a x) y (comparedText w b y)) := by
  have hform {r : Ref} {x : Atom} (hr : r ∈ S) (hx : w.body r = .atom x) : FormIs w r x (comparedText w r x) :=
    formIs_of_hasNativeText (hw.has r hr) hx (Dispatch.hasNativeText_of_isOrdinary (hw.isOrdinary hr hx))
  have hplain {r : Ref} {x : Atom} (hx : w.body r = .atom x) : hasForm w r = true := by
    simp only [hasForm, isPlain, atom?, hx, Option.isSome_some, Bool.true_or]
  have hsettles := settles_compareForms (hw.has a ha) (hw.has b hb) (hform ha hx) (hform hb hy)
  rw [outcome, if_neg hne, hplain hx, hplain hy, if_pos (Bool.and_self true), hsettles.answer_eq]

theorem outcome_of_items (hne : a ≠ b) {xs ys : List Ref} (hx : w.items? a = some xs) (hy : w.items? b = some ys)
    (hlen : xs.length = ys.length) : outcome w a b = .visit (.all ((xs.zip ys).map some)) := by
  have hplan : contentPlan w .array a b = .all ((xs.zip ys).map some) := by
    simp only [contentPlan, hx, hy]
    exact if_neg (not_not.mpr hlen)
  simp only [outcome, if_neg hne, hasForm_of_items hx, hasForm_of_items hy, Bool.and_self, Bool.or_self,
    Bool.false_eq_true, structural, refType?_of_items hx, refType?_of_items hy, ne_eq, not_true_eq_false, ↓reduceIte, hplan]

theorem outcome_of_mappings (hne : a ≠ b) {xs ys : List (Ref × Ref)} (hx : w.body a = .mapping xs)
    (hy : w.body b = .mapping ys) (hlen : xs.length = ys.length) :
    outcome w a b = .visit (.all (valuePairs w xs ys)) := by
  have hplan : contentPlan w .hash a b = .all (valuePairs w xs ys) := by
    simp only [contentPlan, hx, hy]
    exact if_neg (not_not.mpr hlen)
  simp only [outcome, if_neg hne, hasForm_of_mapping hx, hasForm_of_mapping hy, Bool.and_self, Bool.or_self,
    Bool.false_eq_true, structural, refType?, hx, hy, ne_eq, not_true_eq_false, ↓reduceIte, hplan]

theorem hasForm_of_members {r : Ref} {items : List Ref} (h : w.body r = .members items) : hasForm w r = false := by
  simp only [hasForm, converts, isPlain, atom?, isValueObject, h]; rfl

theorem outcome_of_members (hne : a ≠ b) {xs ys : List Ref} (hx : w.body a = .members xs) (hy : w.body b = .members ys)
    (hlen : xs.length = ys.length) : outcome w a b = .visit (.sets xs ys) := by
  have hplan : contentPlan w .set a b = .sets xs ys := by
    simp only [contentPlan, hx, hy]
    exact if_neg (not_not.mpr hlen)
  simp only [outcome, if_neg hne, hasForm_of_members hx, hasForm_of_members hy, Bool.and_self, Bool.or_self,
    Bool.false_eq_true, structural, refType?, hx, hy, ne_eq, not_true_eq_false, ↓reduceIte, hplan]

/-- How the comparison of values that share a dump goes on: it is settled, or it asks for what stands opposite. -/
theorem Opposite.outcome_cases (h : Opposite w a b pairs) (hw : Builtins w S) (ha : a ∈ S) (hb : b ∈ S)
    (hdump : ShareDump w a b) (hclash : areClashing w a b = false) :
    outcome w a b = .settled (.ok true) ∨
      (∃ children, outcome w a b = .visit (.all children) ∧ ∀ p ∈ children, ∃ q ∈ pairs, p = some q) ∨
      ∃ xs ys, outcome w a b = .visit (.sets xs ys) ∧ w.body a = .members xs ∧ w.body b = .members ys ∧
        (pairs.map (·.1)).Perm xs ∧ (pairs.map (·.2)).Perm ys ∧ Exchangeable (truth w) xs ys := by
  by_cases hne : a = b
  · exact .inl (if_pos hne)
  cases h with
  | same heq => exact absurd heq hne
  | plain hx hy hread hread' =>
      obtain ⟨t, hta, htb⟩ := hw.exists_termOf ha hb hdump
      rw [termOf_atom hw.data hw.acyclic ha hx] at hta
      rw [termOf_atom hw.data hw.acyclic hb hy] at htb
      refine .inl ((outcome_of_plain hw ha hb hne hx hy).trans (congrArg Outcome.settled ?_))
      refine formsEqual_of_contentOf (hw.isOrdinary ha hx) (hw.isOrdinary hb hy) ((hw.kinds a ha).integral hx).1
        ((hw.kinds b hb).integral hy).1 hta htb ?_ hread hread'
      simpa only [areClashing, hx, hy] using hclash
  | items hx hy =>
      have hlen := (hw.shareDump_items ha hb hdump hx hy).length_eq
      refine .inr (.inl ⟨_, outcome_of_items hne hx hy hlen, fun p hp => ?_⟩)
      obtain ⟨q, hq, rfl⟩ := List.mem_map.mp hp
      exact ⟨q, hq, rfl⟩
  | values hx hy htell =>
      obtain ⟨hlen, hall⟩ := allIn_shareDump hw ha hb hdump hx hy htell
      refine .inr (.inl ⟨_, outcome_of_mappings hne hx hy hlen, fun p hp => ?_⟩)
      obtain ⟨q, rfl, -⟩ := hall p hp
      exact ⟨q, mem_filterMap_id.mpr hp, rfl⟩
  | members hx hy hfirst hsecond _ hex =>
      have hlen := hfirst.length_eq.symm.trans
        ((List.length_map _).trans ((List.length_map (·.2)).symm.trans hsecond.length_eq))
      exact .inr (.inr ⟨_, _, outcome_of_members hne hx hy hlen, hx, hy, hfirst, hsecond, hex⟩)

/-- The recursion without memory finds values that share a dump equal if nothing in them is confused. -/
theorem Unconfused.truth_eq (h : Unconfused w a b) (hw : Builtins w S) (ha : a ∈ S) (hb : b ∈ S)
    (hdump : ShareDump w a b) (hclash : areClashing w a b = false) : truth w a b = .ok true := by
  induction h with
  | @intro a b pairs hopposite hclear _ ih =>
      have hequal : ∀ p ∈ pairs, truth w p.1 p.2 = .ok true := fun p hp => by
        obtain ⟨hpart, hshare⟩ := hopposite.inside hw ha hb hdump p hp
        exact ih p hp (hw.data.graph.parts a ha _ hpart.1) (hw.data.graph.parts b hb _ hpart.2) hshare (hclear p hp)
      rw [Equality.truth_eq hw.graph hw.acyclic ha hb]
      rcases hopposite.outcome_cases hw ha hb hdump hclash with ho | ⟨children, ho, hchildren⟩ |
        ⟨xs, ys, ho, -, -, hfirst, hsecond, hex⟩
      · rw [ho]
      · rw [ho]
        refine Plan.run_all_of_allIn fun p hp => ?_
        obtain ⟨q, hq, rfl⟩ := hchildren p hp
        exact ⟨q, rfl, hequal q hq⟩
      · rw [ho]
        exact Plan.run_sets_of_pairs hex hfirst hsecond hequal

/-! ## Sets of plain values -/

/-- Where only equal pairs were seen, the run answers so and sees only equal pairs. -/
def Faithful (w : World) (run : Recall Bool) (answer : Except Fault Bool) : Prop :=
  ∃ e, answer = .ok e ∧ ∀ seen : Seen, (∀ p ∈ seen, truth w p.1 p.2 = .ok true) →
    ∃ seen' : Seen, run seen = .ok (e, seen') ∧ ∀ p ∈ seen', truth w p.1 p.2 = .ok true

theorem faithful_run {f : Ref → Ref → Recall Bool} {p : Plan}
    (h : p.Asks fun x y => Faithful w (f x y) (truth w x y)) : Faithful w (p.run f) (p.run (truth w)) := by
  induction p with
  | done answer => exact ⟨answer, rfl, fun seen hseen => ⟨seen, rfl, hseen⟩⟩
  | ask x y next ih =>
      obtain ⟨e, he, hf⟩ := h.1
      obtain ⟨e', he', hnext⟩ := ih e (h.2 e)
      refine ⟨e', by rw [Plan.run, he]; exact he', fun seen hseen => ?_⟩
      obtain ⟨seen₁, h₁, hseen₁⟩ := hf seen hseen
      obtain ⟨seen₂, h₂, hseen₂⟩ := hnext seen₁ hseen₁
      refine ⟨seen₂, ?_, hseen₂⟩
      exact (Plan.run_ask_of_ok h₁).trans h₂

theorem faithful_of_settled (hw : Builtins w S) (ha : a ∈ S) (hb : b ∈ S) {answer : Except Fault Bool} {e : Bool}
    (ho : outcome w a b = .settled answer) (he : truth w a b = .ok e) (stop : Fault) (depth : Nat) :
    Faithful w (watchedSteps w stop (depth + 1) a b) (truth w a b) := by
  have hanswer : answer = .ok e := by rwa [truth_eq hw.graph hw.acyclic ha hb, ho] at he
  refine ⟨e, he, fun seen hseen => ⟨seen, ?_, hseen⟩⟩
  rw [watchedSteps_eq_step (hseen (a, b)), step, ho, hanswer]
  rfl

theorem faithful_of_visit (hw : Builtins w S) (ha : a ∈ S) (hb : b ∈ S) {plan : Plan} {stop : Fault} {depth : Nat}
    (ho : outcome w a b = .visit plan) (htrue : truth w a b = .ok true)
    (h : plan.Asks fun x y => Faithful w (watchedSteps w stop depth x y) (truth w x y)) :
    Faithful w (watchedSteps w stop (depth + 1) a b) (truth w a b) := by
  have hplan : plan.run (truth w) = .ok true := by rwa [truth_eq hw.graph hw.acyclic ha hb, ho] at htrue
  obtain ⟨e, he, hrun⟩ := faithful_run h
  cases hplan.symm.trans he
  refine ⟨true, htrue, fun seen hseen => ?_⟩
  rw [watchedSteps_eq_step (hseen (a, b)), step, ho]
  by_cases hmem : (a, b) ∈ seen
  · exact ⟨seen, Outcome.run_visit_of_mem hmem, hseen⟩
  · rw [Outcome.run_visit_of_not_mem hmem]
    refine hrun _ fun p hp => ?_
    rcases List.mem_cons.mp hp with rfl | hp
    · exact htrue
    · exact hseen p hp

theorem outcome_of_isPlain (ha : w.isPlain a = true) (hb : w.isPlain b = true) :
    ∃ answer, outcome w a b = .settled answer := by
  unfold outcome
  split
  · exact ⟨_, rfl⟩
  · rw [if_pos (by simp only [hasForm, ha, hb, Bool.true_or, Bool.and_self])]
    exact ⟨_, rfl⟩

/-- Where sets hold plain values, comparing values that share a dump never meets an unequal pair again. -/
theorem Unconfused.faithful (h : Unconfused w a b) (hw : Builtins w S) (hplain : PlainMembers w S) (ha : a ∈ S)
    (hb : b ∈ S) (hdump : ShareDump w a b) (hclash : areClashing w a b = false) (stop : Fault) {depth : Nat}
    (hd : w.height S a < depth) : Faithful w (watchedSteps w stop depth a b) (truth w a b) := by
  have htrue := h.truth_eq hw ha hb hdump hclash
  induction h generalizing depth with
  | @intro a b pairs hopposite hclear hunconfused ih =>
      obtain ⟨depth, rfl⟩ := Nat.exists_eq_succ_of_ne_zero (Nat.ne_of_gt (Nat.zero_lt_of_lt hd))
      have hlower {x : Ref} (hx : x ∈ S) (hpart : w.Part a x) : w.height S x < depth :=
        Nat.lt_of_lt_of_le (height_lt hw.acyclic hx hpart) (Nat.le_of_lt_succ hd)
      rcases hopposite.outcome_cases hw ha hb hdump hclash with ho | ⟨children, ho, hchildren⟩ |
        ⟨xs, ys, ho, hx, hy, -, -, hex⟩
      · exact faithful_of_settled hw ha hb ho htrue stop depth
      · refine faithful_of_visit hw ha hb ho htrue (.all fun p hp q hq => ?_)
        obtain ⟨q, hmem, rfl⟩ := hchildren p hp
        cases hq
        obtain ⟨hpart, hshare⟩ := hopposite.inside hw ha hb hdump q hmem
        have hfirst := hw.data.graph.parts a ha _ hpart.1
        have hsecond := hw.data.graph.parts b hb _ hpart.2
        exact ih q hmem hfirst hsecond hshare (hclear q hmem) (hlower hfirst hpart.1)
          ((hunconfused q hmem).truth_eq hw hfirst hsecond hshare (hclear q hmem))
      · refine faithful_of_visit hw ha hb ho htrue (.sets fun x hxm y hym => ?_)
        have hxS := hw.data.graph.member ha hx hxm
        obtain ⟨answer, ho⟩ := outcome_of_isPlain (hplain a ha xs hx x hxm) (hplain b hb ys hy y hym)
        obtain ⟨e, he⟩ := hex.answers x hxm y hym
        obtain ⟨depth, rfl⟩ := Nat.exists_eq_succ_of_ne_zero
          (Nat.ne_of_gt (Nat.zero_lt_of_lt (hlower hxS (.inr (.member hx hxm)))))
        exact faithful_of_settled hw hxS (hw.data.graph.member hb hy hym) ho he stop depth

theorem Unconfused.settles (h : Unconfused w a b) (hw : Builtins w S) (hplain : PlainMembers w S) (ha : a ∈ S)
    (hb : b ∈ S) (hdump : ShareDump w a b) (hclash : areClashing w a b = false) : w.Settles (isEqual a b) (truth w a b) := by
  refine (settles_of_not_stopped hw.graph hw.acyclic ha hb ?_).2.2
  filter_upwards [Filter.eventually_gt_atTop (w.height S a)] with n hn hstop
  obtain ⟨e, -, hrun⟩ := h.faithful hw hplain ha hb hdump hclash .typeError hn
  obtain ⟨seen, hseen, -⟩ := hrun [] fun p hp => absurd hp List.not_mem_nil
  rw [(hstop .typeError).1] at hseen
  cases hseen

/-! ## Equal types and dumps -/

/-- Plain values of one type do not clash. -/
theorem areClashing_of_typeName (hw : Builtins w S) (ha : a ∈ S) (hb : b ∈ S)
    (htype : Registry.typeName w a = Registry.typeName w b) : areClashing w a b = false := by
  have hmisreads {x y : Atom} (h : (w.info (.native (atomClass x))).fullName = (w.info (.native (atomClass y))).fullName) :
      misreads x y = false := by
    unfold misreads
    split
    · exact absurd h (by simp only [atomClass, World.info]; decide)
    · exact absurd h (by simp only [atomClass, World.info]; decide)
    · exact absurd h (by simp only [atomClass, World.info]; decide)
    · rfl
  unfold areClashing
  split
  · rename_i x y hx hy
    rw [hw.named a ha, hw.named b hb, ((hw.kinds a ha).integral hx).2, ((hw.kinds b hb).integral hy).2] at htype
    rw [clashes, hmisreads htype, hmisreads htype.symm]
    rfl
  · rfl

/-- Values of one type that share a dump are equal if nothing in them is confused: the recursion without memory
finds them equal, and so does deep equality where sets hold plain values or no unequal pair is met again. -/
theorem isEqual_of_shareDump (hw : Builtins w S) (ha : a ∈ S) (hb : b ∈ S)
    (htype : Registry.typeName w a = Registry.typeName w b) (hdump : ShareDump w a b) (h : Unconfused w a b) :
    w.Settles (separately a b) (.ok true) ∧
      (PlainMembers w S ∨ MeetsOnlyEqual w a b → w.Settles (isEqual a b) (.ok true)) := by
  have hclash := areClashing_of_typeName hw ha hb htype
  have htrue := h.truth_eq hw ha hb hdump hclash
  refine ⟨?_, fun hor => ?_⟩
  · have hsettles := settles_separately hw.graph hw.acyclic ha hb (Nat.lt_succ_self _)
    rwa [← hsettles.answer_eq, ← truth, htrue] at hsettles
  · rw [← htrue]
    rcases hor with hplain | hmeets
    · exact h.settles hw hplain ha hb hdump hclash
    · exact (hmeets.settles hw.graph hw.acyclic ha hb).2.2

/-! ## A set in place of a list -/

/-- A list of a list, and a list of a set with the same element. -/
def disguised : World :=
  { Session.initialWorld with
    cells := #[list [.cell 1], list [intRef 1], list [.cell 3], Perl.set [intRef 1]] }

/-- The two lists have one type and one dump, but are not equal. -/
theorem isEqual_disguised :
    Registry.typeName disguised (.cell 0) = Registry.typeName disguised (.cell 2) ∧
      answered (encode (.cell 0) 0) disguised = some "[[1]]" ∧ answered (encode (.cell 2) 0) disguised = some "[[1]]" ∧
      answered (isEqual (.cell 0) (.cell 2)) disguised = some false := by
  refine ⟨by decide, by decide +kernel, by decide +kernel, by decide⟩

/-! ## Values of other kinds with one dump -/

def truthRef : Ref := .atom (.bool true)

def bytesRef (content : List UInt8) : Ref := .atom (.bytes content)

/-- Two lists with a truth value and a one, mappings to a list and to a tuple, and sets of a text and of bytes. -/
def likenesses : World :=
  { Session.initialWorld with
    cells := #[list [truthRef, .cell 1, .cell 2], dict [(textRef "k", .cell 3)], Perl.set [textRef "x"], list [intRef 2],
      list [intRef 1, .cell 5, .cell 6], dict [(textRef "k", .cell 7)], frozen [bytesRef [0x78]], tuple [intRef 2]] }

def likenessRefs : List Ref :=
  [.cell 0, .cell 1, .cell 2, .cell 3, .cell 4, .cell 5, .cell 6, .cell 7, truthRef, intRef 1, intRef 2, textRef "k",
    textRef "x", bytesRef [0x78]]

def likenessRank : Ref → Nat
  | .cell i => [3, 2, 1, 1, 3, 2, 1, 1].getD i 0
  | _ => 0

theorem builtin_likenesses : ∀ r ∈ likenessRefs, Builtin likenesses r := by
  have hint (i : Int) : Integral (Atom.int i) := fun n hn => ⟨i, (Atom.number.inj hn).symm⟩
  intro r hr
  simp only [likenessRefs, List.mem_cons, List.not_mem_nil, or_false] at hr
  rcases hr with rfl | rfl | rfl | rfl | rfl | rfl | rfl | rfl | rfl | rfl | rfl | rfl | rfl | rfl
  · exact .sequence rfl (.inl rfl)
  · exact .mapping rfl rfl
  · exact .members rfl (.inl rfl)
  · exact .sequence rfl (.inl rfl)
  · exact .sequence rfl (.inl rfl)
  · exact .mapping rfl rfl
  · exact .members rfl (.inr rfl)
  · exact .sequence rfl (.inr rfl)
  · exact .plain rfl (fun n hn => by cases hn) rfl
  · exact .plain rfl (hint 1) rfl
  · exact .plain rfl (hint 2) rfl
  · exact .plain rfl (fun n hn => by cases hn) rfl
  · exact .plain rfl (fun n hn => by cases hn) rfl
  · exact .plain rfl (fun n hn => by cases hn) rfl

theorem builtins_likenesses : Builtins likenesses likenessRefs where
  sound := Registry.sound_empty
  has := by decide
  kinds := builtin_likenesses
  parts := by decide
  acyclic := by
    have hG : Perl.Graph likenesses likenessRefs :=
      Perl.graph_of_isData Registry.sound_empty (by decide) (fun r hr => (builtin_likenesses r hr).isData) (by decide)
    refine hG.toClosed.acyclic_of_rank likenessRank fun r hr c hc => ?_
    have hrank : ∀ r ∈ likenessRefs, ∀ c ∈ likenesses.parts r, likenessRank c < likenessRank r := by decide
    refine hrank r hr c (mem_parts (fun ho => ?_) hc)
    rw [(builtin_likenesses r hr).isObject] at ho
    cases ho
  keys := by
    intro r hr entries hb
    simp only [likenessRefs, List.mem_cons, List.not_mem_nil, or_false] at hr
    rcases hr with rfl | rfl | rfl | rfl | rfl | rfl | rfl | rfl | rfl | rfl | rfl | rfl | rfl | rfl <;> cases hb <;>
      exact List.pairwise_singleton _ _
  named := fun _ _ => rfl

theorem termOf_of_member (hw : Builtins w S) {r c : Ref} {t : Term} (hr : r ∈ S) (hb : w.body r = .members [c])
    (hc : termOf w S c = .ok t) : termOf w S r = .ok (.array [t]) := by
  rw [termOf_eq hw.data.graph.toClosed hw.acyclic hr, writeStep_members hb rfl]
  simp only [writtenMembers, List.mapM_cons, List.mapM_nil, writtenText, hc, Bind.bind, Except.bind, pure, Except.pure,
    byText, List.mergeSort_singleton, List.map_cons, List.map_nil, writtenArray, writtenItems]
  exact congrArg Except.ok ((hw.kinds r hr).typed_eq (fun x hx => by rw [hb] at hx; cases hx) _)

theorem termOf_of_entry (hw : Builtins w S) {r k c : Ref} {s : String} {t : Term} (hr : r ∈ S)
    (hb : w.body r = .mapping [(k, c)]) (hk : w.atom? k = some (.text s)) (hc : termOf w S c = .ok t) :
    termOf w S r = .ok (.hash [(quote s.toList, t)]) := by
  rw [termOf_eq hw.data.graph.toClosed hw.acyclic hr, writeStep_mapping hb rfl]
  simp only [writtenMapping, List.mapM_cons, List.mapM_nil, writtenKey, hk, hc, Bind.bind, Except.bind, pure, Except.pure,
    writtenHash, byText, List.mergeSort_singleton, writtenEntries]
  exact congrArg Except.ok ((hw.kinds r hr).typed_eq (fun x hx => by rw [hb] at hx; cases hx) _)

theorem termOf_likeness {x : Atom} {t : Term} (hr : .atom x ∈ likenessRefs) (hx : contentOf x = .ok t) :
    termOf likenesses likenessRefs (.atom x) = .ok t :=
  (termOf_atom builtins_likenesses.data builtins_likenesses.acyclic hr rfl).trans hx

/-- Both lists are written in this way. -/
def likenessTerm : Term := .array [.bare ['1'], .hash [(quote ['k'], .array [.bare ['2']])], .array [.quoted ['x']]]

theorem termOf_likenesses : termOf likenesses likenessRefs (.cell 0) = .ok likenessTerm ∧
    termOf likenesses likenessRefs (.cell 4) = .ok likenessTerm := by
  have hw := builtins_likenesses
  have htruth : termOf likenesses likenessRefs truthRef = .ok (.bare ['1']) := termOf_likeness (by decide) rfl
  have hone : termOf likenesses likenessRefs (intRef 1) = .ok (.bare ['1']) := termOf_likeness (by decide) rfl
  have htwo : termOf likenesses likenessRefs (intRef 2) = .ok (.bare ['2']) := termOf_likeness (by decide) rfl
  have htext : termOf likenesses likenessRefs (textRef "x") = .ok (.quoted ['x']) := termOf_likeness (by decide) rfl
  have hbytes : termOf likenesses likenessRefs (bytesRef [0x78]) = .ok (.quoted ['x']) :=
    termOf_likeness (by decide) rfl
  have hlist : termOf likenesses likenessRefs (.cell 3) = .ok (.array [.bare ['2']]) := by
    rw [hw.termOf_items (by decide) rfl, List.mapM_cons, htwo]
    rfl
  have htuple : termOf likenesses likenessRefs (.cell 7) = .ok (.array [.bare ['2']]) := by
    rw [hw.termOf_items (by decide) rfl, List.mapM_cons, htwo]
    rfl
  constructor
  · have hdict := termOf_of_entry hw (r := .cell 1) (by decide) rfl rfl hlist
    have hset := termOf_of_member hw (r := .cell 2) (by decide) rfl htext
    rw [hw.termOf_items (by decide) rfl, List.mapM_cons, htruth, List.mapM_cons, hdict, List.mapM_cons, hset]
    rfl
  · have hdict := termOf_of_entry hw (r := .cell 5) (by decide) rfl rfl htuple
    have hset := termOf_of_member hw (r := .cell 6) (by decide) rfl hbytes
    rw [hw.termOf_items (by decide) rfl, List.mapM_cons, hone, List.mapM_cons, hdict, List.mapM_cons, hset]
    rfl

theorem unconfused_likenesses : Unconfused likenesses (.cell 0) (.cell 4) := by
  have hw := builtins_likenesses
  have hplain {x y : Atom} (hx : Readable x) (hy : Readable y) : Unconfused likenesses (.atom x) (.atom y) :=
    .intro (.plain rfl rfl hx hy) (fun _ h => absurd h List.not_mem_nil) fun _ h => absurd h List.not_mem_nil
  have hnumber (n : Number) : Readable (.number n) := fun _ h => by cases h
  have htext : Unconfused likenesses (textRef "x") (bytesRef [0x78]) :=
    hplain (fun s hs => by cases hs; decide) fun s hs => by cases hs
  have hshare : ShareDump likenesses (textRef "x") (bytesRef [0x78]) :=
    hw.shareDump_of_termOf (by decide) (by decide) (termOf_likeness (by decide) rfl) (termOf_likeness (by decide) rfl)
  have hequal : truth likenesses (textRef "x") (bytesRef [0x78]) = .ok true :=
    htext.truth_eq hw (by decide) (by decide) hshare (by decide)
  have hkey : ShareLiteral likenesses (textRef "k") (textRef "k") :=
    have hliteral : likenesses.Settles (literal (textRef "k")) (.ok (quote ['k'])) :=
      settles_literal hw.data.graph hw.acyclic (show textRef "k" ∈ likenessRefs by decide)
    ⟨_, hliteral, hliteral⟩
  have hsequences : Unconfused likenesses (.cell 3) (.cell 7) := by
    refine .intro (.items rfl rfl) (by decide) fun p hp => ?_
    cases List.mem_singleton.mp hp
    exact hplain (hnumber _) (hnumber _)
  have hmappings : Unconfused likenesses (.cell 1) (.cell 5) := by
    have hkeys : LiteralsTell likenesses [textRef "k", textRef "k"] := by
      intro k hk k' hk'
      obtain rfl : k = textRef "k" := by simpa using hk
      obtain rfl : k' = textRef "k" := by simpa using hk'
      exact iff_of_true hkey ⟨0, rfl⟩
    have hfound : likenesses.entryFor? (textRef "k") [(textRef "k", .cell 7)] = some (textRef "k", .cell 7) :=
      List.find?_cons_of_pos (by simpa using ⟨0, rfl⟩)
    have hpairs : (valuePairs likenesses [(textRef "k", .cell 3)] [(textRef "k", .cell 7)]).filterMap id =
        [(.cell 3, .cell 7)] := by simp [valuePairs, hfound]
    refine .intro (.values rfl rfl hkeys) ?_ ?_
    · rw [hpairs]
      decide
    · rw [hpairs]
      intro p hp
      cases List.mem_singleton.mp hp
      exact hsequences
  have hsets : Unconfused likenesses (.cell 2) (.cell 6) := by
    have hex : Exchangeable (truth likenesses) [textRef "x"] [bytesRef [0x78]] := by
      refine ⟨fun x hx y hy => ?_, fun x hx x' _ y _ y' hy' _ _ _ => ?_⟩
      · cases List.mem_singleton.mp hx
        cases List.mem_singleton.mp hy
        exact ⟨true, hequal⟩
      · cases List.mem_singleton.mp hx
        cases List.mem_singleton.mp hy'
        exact hequal
    have hopposite : Opposite likenesses (.cell 2) (.cell 6) [(textRef "x", bytesRef [0x78])] :=
      .members rfl rfl (.refl _) (.refl _) (fun p hp => by cases List.mem_singleton.mp hp; exact hshare) hex
    refine .intro hopposite (by decide) fun p hp => ?_
    cases List.mem_singleton.mp hp
    exact htext
  refine .intro (.items rfl rfl) (by decide) fun p hp => ?_
  have hp : p = (truthRef, intRef 1) ∨ p = (.cell 1, .cell 5) ∨ p = (.cell 2, .cell 6) := by
    simpa using hp
  rcases hp with rfl | rfl | rfl
  · exact hplain (fun s hs => by cases hs) (hnumber _)
  · exact hmappings
  · exact hsets

/-- The lists are equal, as their types and dumps are. -/
theorem isEqual_likenesses : likenesses.Settles (isEqual (.cell 0) (.cell 4)) (.ok true) := by
  have hw := builtins_likenesses
  have hdump : ShareDump likenesses (.cell 0) (.cell 4) :=
    hw.shareDump_of_termOf (by decide) (by decide) termOf_likenesses.1 termOf_likenesses.2
  have hplain : PlainMembers likenesses likenessRefs := by
    intro r hr items hb x hx
    simp only [likenessRefs, List.mem_cons, List.not_mem_nil, or_false] at hr
    rcases hr with rfl | rfl | rfl | rfl | rfl | rfl | rfl | rfl | rfl | rfl | rfl | rfl | rfl | rfl <;> cases hb <;>
      (cases List.mem_singleton.mp hx; rfl)
  exact (isEqual_of_shareDump hw (show Ref.cell 0 ∈ likenessRefs by decide) (show Ref.cell 4 ∈ likenessRefs by decide)
    rfl hdump unconfused_likenesses).2 (.inl hplain)

end Introspect.Equality
