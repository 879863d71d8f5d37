import Introspect.Proofs.Data.Display
/-!
How lowering ends. A graph with no cycle and no code becomes data, however much of it is shared. Another
graph is refused, unless lowering comes to boxes that hold each other and nothing else: boxes are not in
progress while their content is lowered.
-/
namespace Introspect.Lower

open World

/-- No code is reached, and nothing that contains itself. -/
def IsClean (w : World) (r : Ref) : Prop :=
  ∀ x, Reaches w r x → isCode w x = false ∧ ¬ Relation.TransGen (Traverses w) x x

/-- A box that holds itself, at once or through other boxes. -/
def IsBoxLoop (w : World) (r : Ref) : Prop := Relation.TransGen (Holds w) r r

/-- Nothing that is reached is in progress. -/
def Avoids (w : World) (active : List Ref) (r : Ref) : Prop :=
  ∀ x, Reaches w r x → isTracked w x = true → x ∉ active

/-- Lowering the first reference comes to the second: nothing that is lowered before is refused. -/
inductive Meets (w : World) : List Ref → Ref → Ref → Prop where
  | here {active r} : Meets w active r r
  | content {active r c x t} : w.body r = .box c t → Meets w active c x → Meets w active r x
  | child {active r before c later x} : isTracked w r = true → r ∉ active →
      contents w r = before ++ c :: later → (∀ y ∈ before, IsClean w y ∧ Avoids w (r :: active) y) →
      Meets w (r :: active) c x → Meets w active r x

variable {w : World} {S : List Ref} {r c x : Ref} {active : List Ref} {depth : Nat} {d : Data}

/-! ## What becomes data -/

/-- Where a reference becomes data, so does what it contains, with less depth. -/
theorem succeeds_contents (h : Succeeds (lowered w depth active r)) (hc : Traverses w r c) :
    ∃ less < depth, ∃ active', active ⊆ active' ∧ Succeeds (lowered w less active' c) := by
  cases depth with
  | zero => obtain ⟨d, hd⟩ := h; cases hd
  | succ depth =>
      rw [lowered] at h
      cases shape w r with
      | atom hb | cls hb =>
          rw [Traverses, contents, hb] at hc
          cases hc
      | code hcode =>
          rw [Traverses, contents_of_isCode hcode] at hc
          cases hc
      | box hb =>
          rw [Traverses, contents_box hb, List.mem_singleton] at hc
          rw [lowerStep_box hb] at h
          exact ⟨depth, Nat.lt_succ_self _, active, fun _ hx => hx, hc ▸ h⟩
      | tracked ht =>
          by_cases hr : r ∈ active
          · rw [lowerStep_again ht hr] at h
            obtain ⟨d, hd⟩ := h
            cases hd
          · rw [lowerStep_contents ht hr, succeeds_bind] at h
            obtain ⟨ds, hds, -⟩ := h
            exact ⟨depth, Nat.lt_succ_self _, r :: active, fun _ hx => List.mem_cons_of_mem _ hx,
              succeeds_mapM.mp ⟨ds, hds⟩ c hc⟩

theorem succeeds_reached (h : Succeeds (lowered w depth active r)) (hx : Reaches w r x) :
    ∃ less ≤ depth, ∃ active', active ⊆ active' ∧ Succeeds (lowered w less active' x) := by
  induction hx with
  | refl => exact ⟨depth, Nat.le_refl _, active, fun _ hx => hx, h⟩
  | tail _ hc ih =>
      obtain ⟨less, hless, active', hsub, hy⟩ := ih
      obtain ⟨least, hleast, active'', hsub', hz⟩ := succeeds_contents hy hc
      exact ⟨least, by omega, active'', fun _ hx => hsub' (hsub hx), hz⟩

/-- A reference on a cycle would become data with less and less depth. -/
theorem not_succeeds_of_cycle (hcycle : Relation.TransGen (Traverses w) x x) :
    ¬ Succeeds (lowered w depth active x) := by
  induction depth using Nat.strong_induction_on generalizing active with
  | _ depth ih =>
    intro h
    obtain ⟨c, hc, hback⟩ := Relation.TransGen.head'_iff.mp hcycle
    obtain ⟨less, hless, active', -, hsucceeds⟩ := succeeds_contents h hc
    obtain ⟨least, hleast, active'', -, hagain⟩ := succeeds_reached hsucceeds hback
    exact ih least (by omega) hagain

theorem isCode_of_succeeds (h : Succeeds (lowered w depth active x)) : isCode w x = false := by
  cases depth with
  | zero => obtain ⟨d, hd⟩ := h; cases hd
  | succ depth =>
      rw [lowered] at h
      cases shape w x with
      | atom hb | cls hb => rw [isCode, hb]
      | code hcode =>
          rw [lowerStep_code hcode] at h
          obtain ⟨d, hd⟩ := h
          cases hd
      | box hb => exact isCode_of_box hb
      | tracked ht => exact isCode_of_tracked ht

theorem not_active_of_succeeds (h : Succeeds (lowered w depth active x)) (ht : isTracked w x = true) :
    x ∉ active := by
  intro hx
  cases depth with
  | zero => obtain ⟨d, hd⟩ := h; cases hd
  | succ depth =>
      rw [lowered, lowerStep_again ht hx] at h
      obtain ⟨d, hd⟩ := h
      cases hd

/-- What becomes data has no code and no cycle in it, and leads to nothing in progress. -/
theorem isClean_of_succeeds (h : Succeeds (lowered w depth active r)) : IsClean w r ∧ Avoids w active r := by
  refine ⟨fun x hx => ?_, fun x hx ht hmem => ?_⟩
  · obtain ⟨less, -, active', -, hsucceeds⟩ := succeeds_reached h hx
    exact ⟨isCode_of_succeeds hsucceeds, fun hcycle => not_succeeds_of_cycle hcycle hsucceeds⟩
  · obtain ⟨less, -, active', hsub, hsucceeds⟩ := succeeds_reached h hx
    exact not_active_of_succeeds hsucceeds ht (hsub hmem)

/-! ## How lowering ends -/

theorem IsClean.contents (h : IsClean w r) (hc : Traverses w r c) : IsClean w c :=
  fun x hx => h x (.head hc hx)

theorem Avoids.contents (h : Avoids w active r) (hclean : IsClean w r) (hc : Traverses w r c) :
    Avoids w (r :: active) c := by
  intro x hx ht hmem
  rcases List.mem_cons.mp hmem with rfl | hmem
  · exact (hclean x .refl).2 (.head' hc hx)
  · exact h x (.head hc hx) ht hmem

/-- Nothing but the limit keeps a clean reference from becoming data. -/
theorem IsClean.succeeds_or (hG : Graph w S) (hr : r ∈ S) (h : IsClean w r) (havoid : Avoids w active r) :
    Succeeds (lowered w depth active r) ∨ lowered w depth active r = .error .nesting := by
  induction depth generalizing active r with
  | zero => exact .inr rfl
  | succ depth ih =>
      rw [lowered]
      cases shape w r with
      | atom hb => exact .inl ⟨_, lowerStep_atom hb⟩
      | cls hb => exact .inl ⟨_, lowerStep_cls hb⟩
      | code hcode =>
          rw [(h r .refl).1] at hcode
          cases hcode
      | box hb =>
          have hc : Traverses w r _ := Holds.traverses ⟨_, hb⟩
          rw [lowerStep_box hb]
          exact ih (hG.mem hr hc) (h.contents hc) fun x hx => havoid x (.head hc hx)
      | tracked ht =>
          rw [lowerStep_contents ht (havoid r .refl ht)]
          have hall := succeeds_mapM_or fun c hc => ih (hG.mem hr hc) (h.contents hc) (havoid.contents h hc)
          rcases hall with ⟨ds, hds⟩ | hnesting
          · rw [hds]
            exact .inl (succeeds_assembled hG hr hds)
          · rw [hnesting]
            exact .inr rfl

/-- What is refused is refused with the library's error for data. -/
theorem kind_of_error {fault : Fault} (hG : Graph w S) (hr : r ∈ S)
    (h : lowered w depth active r = .error fault) : fault = .nesting ∨ fault.kind? = some .io := by
  induction depth generalizing active r with
  | zero =>
      cases h
      exact .inl rfl
  | succ depth ih =>
      rw [lowered] at h
      cases shape w r with
      | atom hb =>
          rw [lowerStep_atom hb] at h
          cases h
      | cls hb =>
          rw [lowerStep_cls hb] at h
          cases h
      | code hcode =>
          rw [lowerStep_code hcode] at h
          cases h
          exact .inr rfl
      | box hb =>
          rw [lowerStep_box hb] at h
          exact ih (hG.mem hr (Holds.traverses ⟨_, hb⟩)) h
      | tracked ht =>
          by_cases hmem : r ∈ active
          · rw [lowerStep_again ht hmem] at h
            cases h
            exact .inr rfl
          · rw [lowerStep_contents ht hmem] at h
            cases hds : (contents w r).mapM (lowered w depth (r :: active)) with
            | error fault' =>
                rw [hds] at h
                cases h
                obtain ⟨c, hc, hfault⟩ := exists_of_mapM_error hds
                exact ih (hG.mem hr hc) hfault
            | ok ds =>
                obtain ⟨d, hd⟩ := succeeds_assembled hG hr hds
                rw [hds] at h
                exact absurd (hd.symm.trans h) (by simp)

/-! ## Boxes that hold each other -/

theorem lowered_of_isBoxLoop (h : IsBoxLoop w x) : lowered w depth active x = .error .nesting := by
  induction depth generalizing x with
  | zero => rfl
  | succ depth ih =>
      obtain ⟨c, ⟨t, hb⟩, hback⟩ := Relation.TransGen.head'_iff.mp h
      rw [lowered, lowerStep_box hb]
      exact ih (.tail' hback ⟨t, hb⟩)

/-- Lowering that comes to such a loop runs into every limit. -/
theorem lowered_of_meets (hG : Graph w S) (hr : r ∈ S) (h : Meets w active r x) (hloop : IsBoxLoop w x) :
    lowered w depth active r = .error .nesting := by
  induction h generalizing depth with
  | here => exact lowered_of_isBoxLoop hloop
  | content hb _ ih =>
      cases depth with
      | zero => rfl
      | succ depth =>
          rw [lowered, lowerStep_box hb]
          exact ih (hG.mem hr (Holds.traverses ⟨_, hb⟩)) hloop
  | @child active r before c later x ht hnot hsplit hbefore _ ih =>
      cases depth with
      | zero => rfl
      | succ depth =>
          have hmem {y : Ref} (hy : y ∈ before ++ c :: later) : y ∈ S :=
            hG.mem hr (show y ∈ contents w r from hsplit ▸ hy)
          have hfirst : ∀ y ∈ before, Succeeds (lowered w depth (r :: active) y) ∨
              lowered w depth (r :: active) y = .error .nesting := fun y hy =>
            (hbefore y hy).1.succeeds_or hG (hmem (List.mem_append_left _ hy)) (hbefore y hy).2
          have hc : lowered w depth (r :: active) c = .error .nesting := ih (hmem (by simp)) hloop
          rw [lowered, lowerStep_contents ht hnot, hsplit, mapM_error_at hfirst hc]
          rfl

/-! ## Without such a loop some depth suffices -/

def idle (S : List Ref) (active : List Ref) : Finset Ref := S.toFinset.filter (· ∉ active)

theorem idle_lt (hr : r ∈ S) (hnot : r ∉ active) : (idle S (r :: active)).card < (idle S active).card := by
  refine Finset.card_lt_card ⟨fun y hy => ?_, fun hsub => ?_⟩
  · obtain ⟨hmem, hidle⟩ := Finset.mem_filter.mp hy
    exact Finset.mem_filter.mpr ⟨hmem, fun h => hidle (List.mem_cons_of_mem _ h)⟩
  · have hmem := hsub (Finset.mem_filter.mpr ⟨List.mem_toFinset.mpr hr, hnot⟩)
    exact (Finset.mem_filter.mp hmem).2 List.mem_cons_self

/-- A bound on the depth: each object in progress may lead to as many boxes as there are. -/
noncomputable def measure (w : World) (S : List Ref) (active : List Ref) (r : Ref) : Nat :=
  (idle S active).card * (S.toFinset.card + 1) + (descendants (Holds w) S r).card

theorem measure_box (hc : c ∈ S) (h : Holds w r c) (hloop : ¬ IsBoxLoop w c) :
    measure w S active c < measure w S active r :=
  Nat.add_lt_add_left (card_descendants_lt hc h hloop) _

theorem measure_tracked (hr : r ∈ S) (hnot : r ∉ active) : measure w S (r :: active) c < measure w S active r := by
  have hheld : (descendants (Holds w) S c).card < S.toFinset.card + 1 := Nat.lt_succ_of_le card_descendants_le
  calc measure w S (r :: active) c
      < (idle S (r :: active)).card * (S.toFinset.card + 1) + (S.toFinset.card + 1) := Nat.add_lt_add_left hheld _
    _ = ((idle S (r :: active)).card + 1) * (S.toFinset.card + 1) := (Nat.succ_mul _ _).symm
    _ ≤ (idle S active).card * (S.toFinset.card + 1) := Nat.mul_le_mul_right _ (idle_lt hr hnot)
    _ ≤ measure w S active r := Nat.le_add_right _ _

/-- Lowering ends at this depth before it reaches the limit. -/
def Ends (w : World) (depth : Nat) (active : List Ref) (r : Ref) : Prop :=
  lowered w depth active r ≠ .error .nesting

/-- One after the other, what an object contains is lowered or refused. -/
theorem exists_mapM_ends {before later : List Ref}
    (hchild : ∀ before c later, contents w r = before ++ c :: later →
      (∀ y ∈ before, IsClean w y ∧ Avoids w (r :: active) y) → ∃ depth, Ends w depth (r :: active) c)
    (hsplit : contents w r = before ++ later)
    (hbefore : ∀ y ∈ before, IsClean w y ∧ Avoids w (r :: active) y) :
    ∃ depth, later.mapM (lowered w depth (r :: active)) ≠ .error .nesting := by
  induction later generalizing before with
  | nil => exact ⟨0, by simp [pure, Except.pure]⟩
  | cons c later ih =>
      obtain ⟨depth, hc⟩ := hchild before c later hsplit hbefore
      cases hd : lowered w depth (r :: active) c with
      | error fault =>
          refine ⟨depth, ?_⟩
          rw [List.mapM_cons, hd]
          intro hnesting
          cases hnesting
          exact hc hd
      | ok d =>
          have hclean : ∀ y ∈ before ++ [c], IsClean w y ∧ Avoids w (r :: active) y := by
            intro y hy
            rcases List.mem_append.mp hy with hy | hy
            · exact hbefore y hy
            · rw [List.mem_singleton.mp hy]
              exact isClean_of_succeeds ⟨d, hd⟩
          obtain ⟨depth', hlater⟩ := ih (by simpa using hsplit) hclean
          refine ⟨max depth depth', ?_⟩
          have hd' : lowered w (max depth depth') (r :: active) c = .ok d := by
            rw [refines_lowered (Nat.le_max_left depth depth') _ c hc, hd]
          have hmore : Refines (later.mapM (lowered w depth' (r :: active)))
              (later.mapM (lowered w (max depth depth') (r :: active))) :=
            .mapM fun y => refines_lowered (Nat.le_max_right depth depth') _ y
          rw [List.mapM_cons, hd']
          intro hnesting
          cases hrest : later.mapM (lowered w (max depth depth') (r :: active)) with
          | error fault =>
              rw [hrest] at hnesting
              cases hnesting
              exact hlater ((hmore hlater).symm.trans hrest)
          | ok ds =>
              rw [hrest] at hnesting
              cases hnesting

theorem exists_ends (hG : Graph w S) (hr : r ∈ S) (h : ∀ x, Meets w active r x → ¬ IsBoxLoop w x) :
    ∃ depth, Ends w depth active r := by
  induction hn : measure w S active r using Nat.strong_induction_on generalizing active r with
  | _ n ih =>
    cases shape w r with
    | atom hb => exact ⟨1, by rw [Ends, lowered, lowerStep_atom hb]; simp⟩
    | cls hb => exact ⟨1, by rw [Ends, lowered, lowerStep_cls hb]; simp⟩
    | code hcode => exact ⟨1, by rw [Ends, lowered, lowerStep_code hcode]; simp [Fault.nesting]⟩
    | @box c t hb =>
        have hc : c ∈ S := hG.mem hr (Holds.traverses ⟨t, hb⟩)
        have hloop : ¬ IsBoxLoop w c := h c (.content hb .here)
        obtain ⟨depth, hends⟩ := ih _ (hn ▸ measure_box hc ⟨t, hb⟩ hloop) hc (fun x hx => h x (.content hb hx)) rfl
        refine ⟨depth + 1, ?_⟩
        rw [Ends, lowered, lowerStep_box hb]
        exact hends
    | tracked ht =>
        by_cases hmem : r ∈ active
        · exact ⟨1, by rw [Ends, lowered, lowerStep_again ht hmem]; simp [Fault.nesting]⟩
        · have hchild : ∀ before c later, contents w r = before ++ c :: later →
              (∀ y ∈ before, IsClean w y ∧ Avoids w (r :: active) y) → ∃ depth, Ends w depth (r :: active) c := by
            intro before c later hsplit hbefore
            have hc : c ∈ S := hG.mem hr (show c ∈ contents w r by simp [hsplit])
            exact ih _ (hn ▸ measure_tracked hr hmem) hc (fun x hx => h x (.child ht hmem hsplit hbefore hx)) rfl
          have hsplit : contents w r = [] ++ contents w r := rfl
          obtain ⟨depth, hends⟩ := exists_mapM_ends hchild hsplit fun _ hy => absurd hy List.not_mem_nil
          refine ⟨depth + 1, ?_⟩
          rw [Ends, lowered, lowerStep_contents ht hmem]
          cases hds : (contents w r).mapM (lowered w depth (r :: active)) with
          | error fault => exact fun hnesting => hends (by cases hnesting; exact hds)
          | ok ds =>
              obtain ⟨d, hd⟩ := succeeds_assembled hG hr hds
              intro hnesting
              exact absurd (hd.symm.trans hnesting) (by simp)

/-! ## The ends -/

theorem Meets.reaches (h : Meets w active r x) : Reaches w r x := by
  induction h with
  | here => exact .refl
  | content hb _ ih => exact .head (Holds.traverses ⟨_, hb⟩) ih
  | child _ _ hsplit _ _ ih => exact .head (show _ ∈ contents w _ by simp [hsplit]) ih

theorem IsClean.not_isBoxLoop (h : IsClean w r) (hx : Meets w active r x) : ¬ IsBoxLoop w x :=
  fun hloop => (h x hx.reaches).2 (Relation.TransGen.mono (fun _ _ hc => Holds.traverses hc) _ _ hloop)

theorem isClean_of_acyclic (hG : Graph w S) (hr : r ∈ S) (hac : w.Acyclic S)
    (hcode : ∀ x ∈ S, isCode w x = false) : IsClean w r := by
  intro x hx
  have hmem := hx.mem hG.toClosed hr
  exact ⟨hcode x hmem, fun hcycle =>
    hac x hmem (Relation.TransGen.mono (fun _ _ hc => Traverses.part hc) _ _ hcycle)⟩

/-- A clean reference becomes data. Another is refused, unless lowering comes to boxes that hold each
other and nothing else: it runs into every limit then. -/
theorem encode_ends (hG : Graph w S) (hr : r ∈ S) :
    (IsClean w r → ∃ d, w.Settles (encode r) (.ok d)) ∧
    (¬ IsClean w r → (∀ x, Meets w [] r x → ¬ IsBoxLoop w x) →
      ∃ fault, fault.kind? = some .io ∧ w.Settles (encode r) (.error fault)) ∧
    ((∃ x, Meets w [] r x ∧ IsBoxLoop w x) → w.Settles (encode r) (.error .nesting)) := by
  refine ⟨fun hclean => ?_, fun hnot hloop => ?_, fun ⟨x, hx, hloop⟩ => ?_⟩
  · obtain ⟨depth, hends⟩ := exists_ends hG hr fun x hx => hclean.not_isBoxLoop hx
    have havoid : Avoids w [] r := fun _ _ _ hmem => by cases hmem
    obtain ⟨d, hd⟩ := (hclean.succeeds_or hG hr havoid).resolve_right hends
    exact ⟨d, settles_encode hG hr hd (by simp)⟩
  · obtain ⟨depth, hends⟩ := exists_ends hG hr hloop
    cases hd : lowered w depth [] r with
    | ok d => exact absurd (isClean_of_succeeds ⟨d, hd⟩).1 hnot
    | error fault =>
        have hne : fault ≠ .nesting := fun hf => hends (hf ▸ hd)
        exact ⟨fault, (kind_of_error hG hr hd).resolve_left hne, settles_encode hG hr hd (by simpa using hne)⟩
  · exact settles_encode_nesting hG hr fun depth => lowered_of_meets hG hr hx hloop

def cellOf (n : Native) (body : Body) : Cell := ⟨.native n, body, [], none⟩

/-- A list that holds one box twice. -/
def shared : World :=
  { Session.initialWorld with
    cells := #[cellOf .list (.sequence [.cell 1, .cell 1]), cellOf .scalar (.box (.cell 2) false),
      cellOf .tuple (.sequence [intRef 1])] }

def sharedRefs : List Ref := [.cell 0, .cell 1, .cell 2, intRef 1]

def sharedRank : Ref → Nat
  | .cell 0 => 3
  | .cell 1 => 2
  | .cell 2 => 1
  | _ => 0

/-- A list that holds a box that holds the list. -/
def ringed : World :=
  { Session.initialWorld with
    cells := #[cellOf .list (.sequence [.cell 1]), cellOf .scalar (.box (.cell 0) false)] }

def ringRefs : List Ref := [.cell 0, .cell 1]

theorem graph_shared : Graph shared sharedRefs :=
  graph_of_isQuiet Registry.sound_empty (by decide) (by decide) (by decide) (by decide)

theorem graph_ringed : Graph ringed ringRefs :=
  graph_of_isQuiet Registry.sound_empty (by decide) (by decide) (by decide) (by decide)

theorem isClean_shared : IsClean shared (.cell 0) := by
  have hquiet : ∀ r ∈ sharedRefs, shared.isObject r = true → shared.StoresQuietly r := by decide
  have hrank : ∀ r ∈ sharedRefs, ∀ c ∈ shared.parts r, sharedRank c < sharedRank r := by decide
  have hcode : ∀ r ∈ sharedRefs, isCode shared r = false := by decide
  have hac : shared.Acyclic sharedRefs :=
    graph_shared.acyclic_of_rank sharedRank fun r hr c hc => hrank r hr c (mem_parts (hquiet r hr) hc)
  exact isClean_of_acyclic graph_shared (by decide) hac hcode

theorem not_isClean_ringed : ¬ IsClean ringed (.cell 0) := by
  intro h
  have hlist : Traverses ringed (.cell 0) (.cell 1) := List.mem_singleton_self _
  have hbox : Traverses ringed (.cell 1) (.cell 0) := List.mem_singleton_self _
  exact (h _ .refl).2 (.tail (.single hlist) hbox)

theorem not_isBoxLoop_ringed {x : Ref} (hx : x ∈ ringRefs) : ¬ IsBoxLoop ringed x := by
  have hlist {y : Ref} : ¬ Holds ringed (.cell 0) y := by
    rintro ⟨t, hb⟩
    cases hb
  intro hloop
  obtain ⟨y, hy, hback⟩ := Relation.TransGen.head'_iff.mp hloop
  simp only [ringRefs, List.mem_cons, List.not_mem_nil, or_false] at hx
  rcases hx with rfl | rfl
  · exact hlist hy
  · obtain ⟨t, hb⟩ := hy
    cases hb
    rcases Relation.ReflTransGen.cases_head hback with hsame | ⟨z, hz, -⟩
    · cases hsame
    · exact hlist hz

/-- What is shared becomes data; the ring is refused at the list. -/
theorem encode_shared_and_ringed :
    (∃ d, shared.Settles (encode (.cell 0)) (.ok d)) ∧
    ∃ fault, fault.kind? = some .io ∧ ringed.Settles (encode (.cell 0)) (.error fault) := by
  refine ⟨(encode_ends graph_shared (by decide)).1 isClean_shared,
    (encode_ends graph_ringed (by decide)).2.1 not_isClean_ringed fun x hx => ?_⟩
  exact not_isBoxLoop_ringed (hx.reaches.mem graph_ringed.toClosed (by decide))

/-- A box that holds itself. -/
def ownBox : World :=
  { Session.initialWorld with cells := #[cellOf .scalar (.box (.cell 0) false)] }

theorem graph_ownBox : Graph ownBox [.cell 0] :=
  graph_of_isQuiet Registry.sound_empty (by decide) (by decide) (by decide) (by decide)

/-- The box is on a cycle, and is not refused: lowering it runs into every limit. -/
theorem encode_ownBox :
    ¬ IsClean ownBox (.cell 0) ∧ ownBox.Settles (encode (.cell 0)) (.error .nesting) ∧
    ¬ ∃ fault, fault.kind? = some .io ∧ ownBox.Settles (encode (.cell 0)) (.error fault) := by
  have hholds : Holds ownBox (.cell 0) (.cell 0) := ⟨false, rfl⟩
  have hsettles : ownBox.Settles (encode (.cell 0)) (.error .nesting) :=
    settles_encode_nesting graph_ownBox (by decide) fun depth => lowered_of_isBoxLoop (.single hholds)
  refine ⟨fun h => (h _ .refl).2 (.single hholds.traverses), hsettles, ?_⟩
  rintro ⟨fault, hkind, hfault⟩
  cases hfault.unique hsettles
  cases hkind

end Introspect.Lower
