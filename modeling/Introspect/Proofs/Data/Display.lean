import Introspect.Proofs.Data.Lowering
/-!
Displays of plain data. The members of a set stand in the order of their displays, so that a set becomes
data where all that is in it has a display: where no integer is too long.
-/
namespace Introspect.Lower

open World

variable {w : World} {S : List Ref} {r : Ref} {active : List Ref} {depth : Nat} {d : Data}

theorem displayItems_eq (ds : List Data) : Data.displayItems ds = ds.mapM Data.display := by
  induction ds with
  | nil => rfl
  | cons d rest ih =>
      rw [Data.displayItems, ih, List.mapM_cons]

theorem succeeds_display_list {ds : List Data} (h : ∀ d ∈ ds, Succeeds d.display) :
    Succeeds (Data.list ds).display := by
  obtain ⟨parts, hparts⟩ := succeeds_mapM.mpr h
  rw [Data.display, displayItems_eq, hparts]
  exact ⟨_, rfl⟩

theorem succeeds_display_dict {pairs : List (Data.Text × Data)} (h : ∀ e ∈ pairs, Succeeds e.2.display) :
    Succeeds (Data.dict pairs).display := by
  have hentries : Succeeds (Data.displayEntries pairs) := by
    induction pairs with
    | nil => exact ⟨[], rfl⟩
    | cons e rest ih =>
        obtain ⟨⟨shown, hshown⟩, hrest⟩ := List.forall_mem_cons.mp h
        obtain ⟨others, hothers⟩ := ih hrest
        rw [Data.displayEntries, hshown, hothers]
        exact ⟨_, rfl⟩
  obtain ⟨parts, hparts⟩ := hentries
  rw [Data.display, hparts]
  exact ⟨_, rfl⟩

theorem mem_put {key : Data.Text} {e : Data.Text × Data} {pairs : List (Data.Text × Data)}
    (h : e ∈ Data.put key d pairs) : e ∈ pairs ∨ e.2 = d := by
  induction pairs with
  | nil =>
      obtain rfl := List.mem_singleton.mp h
      exact .inr rfl
  | cons p rest ih =>
      rw [Data.put] at h
      split at h
      · rcases List.mem_cons.mp h with rfl | h
        · exact .inr rfl
        · exact .inl (List.mem_cons_of_mem _ h)
      · rcases List.mem_cons.mp h with rfl | h
        · exact .inl List.mem_cons_self
        · exact (ih h).imp_left (List.mem_cons_of_mem _)

theorem forall_mem_ofEntries {P : Data → Prop} {pairs : List (Data.Text × Data)} (h : ∀ e ∈ pairs, P e.2) :
    ∀ e ∈ Data.ofEntries pairs, P e.2 := by
  have hfold (found : List (Data.Text × Data)) (hfound : ∀ e ∈ found, P e.2) :
      ∀ e ∈ pairs.foldl (fun found e => Data.put e.1 e.2 found) found, P e.2 := by
    induction pairs generalizing found with
    | nil => exact hfound
    | cons p rest ih =>
        obtain ⟨hp, hrest⟩ := List.forall_mem_cons.mp h
        refine ih hrest (Data.put p.1 p.2 found) fun e he => ?_
        rcases mem_put he with he | he
        · exact hfound e he
        · exact he ▸ hp
  exact hfold [] fun e he => absurd he List.not_mem_nil

theorem mem_of_byDisplay {ds ds' : List Data} (h : byDisplay ds = .ok ds') (hd : d ∈ ds') : d ∈ ds := by
  obtain ⟨shown, hshown, hsorted⟩ := bind_ok_iff.mp h
  cases hsorted
  obtain ⟨p, hp, rfl⟩ := List.mem_map.mp hd
  exact forall_kept (k := id) (P := (· ∈ ds)) hshown (fun _ h => h) p ((List.mergeSort_perm shown _).mem_iff.mp hp)

theorem succeeds_byDisplay {ds : List Data} (h : ∀ d ∈ ds, Succeeds d.display) : Succeeds (byDisplay ds) := by
  obtain ⟨shown, hshown⟩ := (succeeds_kept (k := id)).mpr h
  exact succeeds_bind.mpr ⟨shown, hshown, _, rfl⟩

theorem succeeds_display_assembled {ds : List Data} (hd : assembled w r ds = .ok d)
    (h : ∀ d ∈ ds, Succeeds d.display) : Succeeds d.display := by
  have hzip (keys : List Data.Text) : Succeeds (Data.dict (Data.ofEntries (keys.zip ds))).display :=
    succeeds_display_dict (forall_mem_ofEntries (P := fun d => Succeeds d.display)
      fun e he => h e.2 (List.of_mem_zip he).2)
  unfold assembled at hd
  split at hd
  · cases hd
    exact hzip _
  · obtain ⟨ds', hds', rfl⟩ := map_ok_iff.mp hd
    exact succeeds_display_list fun d hd => h d (mem_of_byDisplay hds' hd)
  · split at hd
    · cases hd
      exact succeeds_display_list h
    · cases hd
      exact hzip _

theorem succeeds_display_plainData {a : Atom} (h : ∀ i, a = Atom.int i → Atom.isWritable (.int i) = true) :
    Succeeds (plainData a).display := by
  have hwritten {n : Number} (hn : Atom.isWritable n = true) : Succeeds (Atom.number n).display := by
    rw [Atom.display, Atom.written, if_pos hn]
    exact ⟨_, rfl⟩
  cases a with
  | number n =>
      cases n with
      | int i => exact hwritten (h i rfl)
      | float x => exact hwritten rfl
      | _ => exact ⟨_, rfl⟩
  | _ => exact ⟨_, rfl⟩

/-- What a reference becomes can be displayed if its integers can. -/
theorem succeeds_display (hw : IsWritten w r) (h : lowered w depth active r = .ok d) : Succeeds d.display := by
  induction depth generalizing active r d with
  | zero => cases h
  | succ depth ih =>
      rw [lowered] at h
      cases shape w r with
      | atom hb =>
          rw [lowerStep_atom hb] at h
          cases h
          exact succeeds_display_plainData fun i hi => hw r .refl i (hi ▸ hb)
      | cls hb =>
          rw [lowerStep_cls hb] at h
          cases h
          exact ⟨_, rfl⟩
      | code hcode =>
          rw [lowerStep_code hcode] at h
          cases h
      | box hb =>
          rw [lowerStep_box hb] at h
          exact ih (hw.contents (Holds.traverses ⟨_, hb⟩)) h
      | tracked ht =>
          by_cases hr : r ∈ active
          · rw [lowerStep_again ht hr] at h
            cases h
          · rw [lowerStep_contents ht hr] at h
            obtain ⟨ds, hds, hd⟩ := bind_ok_iff.mp h
            exact succeeds_display_assembled hd (forall_of_mapM hds fun c hc y hy => ih (hw.contents hc) hy)

/-- What a reference contains can be put together. -/
theorem succeeds_assembled {ds : List Data} (hG : Graph w S) (hr : r ∈ S)
    (h : (contents w r).mapM (lowered w depth active) = .ok ds) : Succeeds (assembled w r ds) := by
  unfold assembled
  split
  · exact ⟨_, rfl⟩
  · rename_i members hb
    refine succeeds_map.mpr (succeeds_byDisplay (forall_of_mapM h fun c hc y hy => ?_))
    exact succeeds_display ((hG.members r hr members hb).contents hc) hy
  · split <;> exact ⟨_, rfl⟩

end Introspect.Lower
