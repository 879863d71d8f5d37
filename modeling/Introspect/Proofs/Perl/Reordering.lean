import Introspect.Proofs.Perl.Proper
import Introspect.Proofs.Reflect.Order
/-!
Terms of data in worlds that differ in the order of entries. Entries are written in the order of their key
literals, so that the order they are held in shows only where two of them share a literal.
-/
namespace Introspect.Perl

open World

/-! ## Sorting -/

section Sorting

variable {α : Type} {pairs pairs' : List (List Char × Ref)}

theorem le_text_trans (a b c : List Char × Ref) (hab : decide (¬ b.1 < a.1) = true)
    (hbc : decide (¬ c.1 < b.1) = true) : decide (¬ c.1 < a.1) = true :=
  decide_eq_true (List.le_trans (of_decide_eq_true hab) (of_decide_eq_true hbc))

theorem le_text_total (a b : List Char × Ref) : (decide (¬ b.1 < a.1) || decide (¬ a.1 < b.1)) = true := by
  rw [Bool.or_eq_true, decide_eq_true_eq, decide_eq_true_eq]
  exact List.le_total a.1 b.1

theorem pairwise_byText (pairs : List (List Char × Ref)) : (byText pairs).Pairwise fun a b => ¬ b.1 < a.1 :=
  (List.pairwise_mergeSort le_text_trans le_text_total pairs).imp of_decide_eq_true

/-- Sorting keeps the order of pairs of one text. -/
theorem filter_byText (pairs : List (List Char × Ref)) (key : List Char) :
    (byText pairs).filter (·.1 = key) = pairs.filter (·.1 = key) := by
  have hone : (pairs.filter (·.1 = key)).Pairwise fun a b => decide (¬ b.1 < a.1) = true := by
    refine List.pairwise_of_forall_mem_list fun a ha b hb => ?_
    rw [of_decide_eq_true (List.mem_filter.mp ha).2, of_decide_eq_true (List.mem_filter.mp hb).2]
    exact decide_eq_true (List.le_refl key)
  have hsub := (List.sublist_mergeSort le_text_trans le_text_total hone List.filter_sublist).filter (·.1 = key)
  rw [List.filter_filter, List.filter_congr fun e _ => Bool.and_self _] at hsub
  refine (hsub.eq_of_length ?_).symm
  exact ((List.mergeSort_perm pairs _).filter _).length_eq.symm

/-- Pairs are sorted alike in any order if those of one text have one value. -/
theorem map_byText_eq {g : Ref → α} (hp : pairs.Perm pairs')
    (hties : ∀ e ∈ pairs, ∀ e' ∈ pairs, e.1 = e'.1 → g e.2 = g e'.2) :
    (byText pairs).map (fun e => (e.1, g e.2)) = (byText pairs').map fun e => (e.1, g e.2) := by
  have hperm : (byText pairs).Perm (byText pairs') :=
    (List.mergeSort_perm pairs _).trans (hp.trans (List.mergeSort_perm pairs' _).symm)
  refine @List.Perm.eq_of_pairwise _ (fun a b => ¬ b.1 < a.1) _ _ ?_
    (List.pairwise_map.mpr (pairwise_byText pairs)) (List.pairwise_map.mpr (pairwise_byText pairs')) (hperm.map _)
  intro a b ha hb hab hba
  obtain ⟨e, he, rfl⟩ := List.mem_map.mp ha
  obtain ⟨e', he', rfl⟩ := List.mem_map.mp hb
  have hkey : e.1 = e'.1 := List.le_antisymm hab hba
  have he' : e' ∈ pairs := hp.mem_iff.mpr (mem_byText.mp he')
  exact Prod.ext hkey (hties e (mem_byText.mp he) e' he' hkey)

end Sorting

/-! ## Entries in another order -/

section Entries

variable {w : World} {g : Ref → Except Fault Term} {active : Active} {p : Path}

theorem writtenHash_perm {pairs pairs' : List (List Char × Ref)} (hp : pairs.Perm pairs')
    (hties : ∀ e ∈ pairs, ∀ e' ∈ pairs, e.1 = e'.1 → g e.2 = g e'.2) :
    writtenHash (fun _ _ => g) active p pairs = writtenHash (fun _ _ => g) active p pairs' := by
  have hentries (pairs : List (List Char × Ref)) : writtenEntries (fun _ _ => g) active p (byText pairs) =
      ((byText pairs).map fun e => (e.1, g e.2)).mapM fun e => do return (e.1, ← e.2) := by
    rw [writtenEntries_const, List.mapM_map]
    rfl
  rw [writtenHash, writtenHash, hentries, hentries, map_byText_eq hp hties]

noncomputable def keyText (w : World) (g : Ref → Except Fault Term) (k : Ref) : List Char :=
  match writtenKey w (fun _ _ => g) k with
  | .ok text => text
  | .error _ => []

theorem writtenKey_eq {k : Ref} (h : Succeeds (writtenKey w (fun _ _ => g) k)) :
    writtenKey w (fun _ _ => g) k = .ok (keyText w g k) := by
  obtain ⟨text, ht⟩ := h
  simp only [keyText, ht]

theorem writtenMapping_eq {entries : List (Ref × Ref)}
    (hkeys : ∀ e ∈ entries, Succeeds (writtenKey w (fun _ _ => g) e.1)) :
    writtenMapping w (fun _ _ => g) active p entries =
      writtenHash (fun _ _ => g) active p (entries.map fun e => (keyText w g e.1, e.2)) := by
  have hpairs : (entries.mapM fun e : Ref × Ref => do return (← writtenKey w (fun _ _ => g) e.1, e.2)) =
      .ok (entries.map fun e => (keyText w g e.1, e.2)) :=
    mapM_ok_map fun e he => by rw [writtenKey_eq (hkeys e he)]; rfl
  rw [writtenMapping, hpairs]
  rfl

/-- Entries whose keys share a literal have values of one term. -/
def TiesAgree (w : World) (g : Ref → Except Fault Term) (entries : List (Ref × Ref)) : Prop :=
  ∀ e ∈ entries, ∀ e' ∈ entries, keyText w g e.1 = keyText w g e'.1 → g e.2 = g e'.2

theorem writtenMapping_perm {entries entries' : List (Ref × Ref)} (hp : entries.Perm entries')
    (hkeys : ∀ e ∈ entries, Succeeds (writtenKey w (fun _ _ => g) e.1)) (hties : TiesAgree w g entries) :
    writtenMapping w (fun _ _ => g) active p entries = writtenMapping w (fun _ _ => g) active p entries' := by
  rw [writtenMapping_eq hkeys, writtenMapping_eq fun e he => hkeys e (hp.mem_iff.mpr he)]
  refine writtenHash_perm (hp.map _) fun y hy y' hy' htext => ?_
  obtain ⟨e, he, rfl⟩ := List.mem_map.mp hy
  obtain ⟨e', he', rfl⟩ := List.mem_map.mp hy'
  exact hties e he e' he' htext

theorem writtenFields_perm {fields fields' : List (String × Ref)} (hp : fields.Perm fields')
    (hd : Pairs.Distinct fields) :
    writtenFields (fun _ _ => g) active p fields = writtenFields (fun _ _ => g) active p fields' := by
  refine writtenHash_perm (hp.map _) fun y hy y' hy' htext => ?_
  obtain ⟨e, he, rfl⟩ := List.mem_map.mp hy
  obtain ⟨e', he', rfl⟩ := List.mem_map.mp hy'
  have hname : e.1 = e'.1 := String.toList_inj.mp (quote_inj htext)
  have hvalue := (Pairs.mem_iff_lookup (k := e.1) (v := e.2) hd).mp he
  rw [hname, (Pairs.mem_iff_lookup (k := e'.1) (v := e'.2) hd).mp he'] at hvalue
  rw [Option.some.inj hvalue]

end Entries

/-! ## Worlds of one outline -/

section Outlines

variable {w v : World} {r : Ref}

theorem isLeaf_outline (h : w.SameOutline v) (r : Ref) : isLeaf v r = isLeaf w r := by
  rcases h.body_cases r with hb | ⟨_, _, hw, hv⟩ | ⟨_, _, hw, hv⟩
  · simp only [isLeaf, hb]
  · simp only [isLeaf, hw, hv]
  · simp only [isLeaf, hw, hv]

theorem isData_outline (h : w.SameOutline v) (hd : isData w r = true) : isData v r = true := by
  have hobject : (!v.isObject r || v.StoresQuietly r) = true := by
    rw [h.isObject]
    cases ho : w.isObject r with
    | false => rfl
    | true => exact decide_eq_true (h.storesQuietly (storesQuietly_of_isData hd ho))
  rcases h.body_cases r with hb | ⟨_, _, -, hv⟩ | ⟨_, _, -, hv⟩
  · unfold isData at hd ⊢
    rw [hb]
    split
    · rename_i n hn
      rw [hn] at hd
      rwa [h.classOf]
    · exact hobject
  · simp only [isData, hv, hobject]
  · simp only [isData, hv, hobject]

theorem typeName_outline (h : w.SameOutline v) (r : Ref) : Registry.typeName v r = Registry.typeName w r := by
  rw [Registry.typeName, Registry.typeName, h.classOf, info_congr h.classes, h.registry]

theorem typed_outline (h : w.SameOutline v) (r : Ref) : typed v r = typed w r := by
  funext t
  rw [typed, typed, h.classOf, typeName_outline h]

end Outlines

/-! ## Data in another order -/

section Worlds

variable {w v : World} {S : List Ref} {r c : Ref}

theorem Data.mem_parts (hw : Data w S) (h : w.Reorders v) (hr : r ∈ S) (hc : c ∈ v.parts r) : c ∈ w.parts r := by
  have hother (hc : c ∈ (v.items? r).getD [] ++ if v.isObject r then (v.storedFields r).map (·.2) else []) :
      c ∈ (w.items? r).getD [] ++ if w.isObject r then (w.storedFields r).map (·.2) else [] := by
    rw [h.outline.items?, h.outline.isObject] at hc
    refine List.mem_append.mpr ((List.mem_append.mp hc).imp_right fun hc => ?_)
    cases ho : w.isObject r with
    | false => rw [ho] at hc; exact hc
    | true =>
        rw [ho] at hc
        exact ((h.storedFields_perm ho (hw.names r hr ho)).map _).mem_iff.mpr hc
  unfold World.parts at hc ⊢
  cases hb : w.body r with
  | mapping entries =>
      obtain ⟨entries', hv, hp⟩ := h.body_mapping hb
      simp only [hv] at hc
      exact ((hp.map _).append (hp.map _)).mem_iff.mpr hc
  | _ =>
      have hv := (h.body_eq (by rw [hb]; simp)).trans hb
      simp only [hv] at hc
      first | exact hc | exact hother hc

theorem Data.reordered (hw : Data w S) (h : w.Reorders v) : Data v S where
  sound := h.outline.registry ▸ hw.sound
  has r hr := h.outline.has (hw.has r hr)
  data r hr := isData_outline h.outline (hw.data r hr)
  parts r hr c hc := hw.parts r hr c (hw.mem_parts h hr hc)
  names r hr ho := (hw.names r hr ((h.outline.isObject r).symm.trans ho)).perm
    (h.dictionary_perm ((h.outline.isObject r).symm.trans ho))
  payloads r hr n hn := by
    refine hw.payloads r hr n ?_
    have ha : v.atom? r = some (.number n) := by simp only [atom?, hn]
    exact body_of_atom? ((h.outline.atom? r).symm.trans ha)

theorem Data.part_reordered (hw : Data w S) (h : w.Reorders v) (hr : r ∈ S) (hc : v.Part r c) : w.Part r c := by
  rcases hc with (hb | ⟨hi, hc⟩ | ⟨hb, he⟩ | ⟨ho, he⟩) | (⟨hb, he⟩ | ⟨hb, hc⟩)
  · exact .inl (.content ((h.symm.body_eq (by rw [hb]; simp)).trans hb))
  · exact .inl (.item ((h.outline.items? r).symm.trans hi) hc)
  · obtain ⟨entries, hb', hp⟩ := h.symm.body_mapping hb
    exact .inl (.value hb' (hp.mem_iff.mp he))
  · have ho' := (h.outline.isObject r).symm.trans ho
    rw [(hw.reordered h).storage_eq hr ho] at he
    have hmem := (h.storedFields_perm ho' (hw.names r hr ho')).mem_iff.mpr he
    rw [← hw.storage_eq hr ho'] at hmem
    exact .inl (.field ho' hmem)
  · obtain ⟨entries, hb', hp⟩ := h.symm.body_mapping hb
    exact .inr (.key hb' (hp.mem_iff.mp he))
  · exact .inr (.member ((h.symm.body_eq (by rw [hb]; simp)).trans hb) hc)

theorem Data.acyclic_reordered (hw : Data w S) (hac : w.Acyclic S) (h : w.Reorders v) : v.Acyclic S := by
  refine (hw.reordered h).graph.toClosed.acyclic_of_rank (w.height S) fun r hr c hc => ?_
  have hc' := hw.part_reordered h hr hc
  exact height_lt hac (hw.graph.toClosed.parts r hr c hc') hc'

variable {g : Ref → Except Fault Term} {active : Active} {p : Path}

theorem writtenKey_reordered (hw : Data w S) (h : w.Reorders v) {k : Ref} (hk : k ∈ S) :
    writtenKey v (fun _ _ => g) k = writtenKey w (fun _ _ => g) k := by
  unfold writtenKey
  rw [h.outline.atom?]
  cases ha : w.atom? k with
  | none => rfl
  | some a =>
      cases a with
      | number n =>
          simp only [hw.answer_textOf hk (body_of_atom? ha),
            (hw.reordered h).answer_textOf hk (body_of_atom? ((h.outline.atom? k).trans ha))]
      | _ => rfl

theorem writtenMapping_reordered (hw : Data w S) (h : w.Reorders v) {entries : List (Ref × Ref)}
    (hkeys : ∀ e ∈ entries, e.1 ∈ S) :
    writtenMapping v (fun _ _ => g) active p entries = writtenMapping w (fun _ _ => g) active p entries := by
  rw [writtenMapping, writtenMapping, mapM_congr fun e he => by rw [writtenKey_reordered hw h (hkeys e he)]]

/-- What is written of the same parts is the same where a mapping is, or where its ties agree. -/
theorem writeStep_reordered (hw : Data w S) (h : w.Reorders v) (hr : r ∈ S)
    (hties : ∀ entries, w.body r = .mapping entries → v.body r = w.body r ∨
      (∀ e ∈ entries, Succeeds (writtenKey w (fun _ _ => g) e.1)) ∧ TiesAgree w g entries) :
    writeStep v (fun _ _ => g) [] .root r = writeStep w (fun _ _ => g) [] .root r := by
  have htyped := typed_outline h.outline r
  have hv := hw.reordered h
  cases shape w r with
  | leaf hleaf =>
      have hbody : v.body r = w.body r :=
        h.body_eq fun entries hb => by simp only [isLeaf, hb] at hleaf; cases hleaf
      unfold writeStep
      rw [hbody]
      cases hb : w.body r with
      | atom a => simp only [hw.answer_atomTerm hr hb, hv.answer_atomTerm hr (hbody.trans hb)]
      | cls c => simp only [info_congr h.outline.classes]
      | routine f => rfl
      | bound self f => rfl
      | partialCall f => rfl
      | methodWrapper => rfl
      | _ => simp [isLeaf, hb] at hleaf
  | box hb =>
      have hb' := (h.body_eq (by rw [hb]; simp)).trans hb
      rw [writeStep_box hb rfl, writeStep_box hb' rfl]
  | mapping hb =>
      obtain ⟨entries', hb', hp⟩ := h.body_mapping hb
      have hkeys : ∀ e ∈ entries', e.1 ∈ S := fun e he => hv.graph.key hr hb' he
      rw [writeStep_mapping hb rfl, writeStep_mapping hb' rfl, htyped, writtenMapping_reordered hw h hkeys]
      rcases hties _ hb with hsame | ⟨hkeys, hagree⟩
      · rw [hb', hb] at hsame
        cases hsame
        rfl
      · rw [writtenMapping_perm hp hkeys hagree]
  | members hb =>
      have hb' := (h.body_eq (by rw [hb]; simp)).trans hb
      rw [writeStep_members hb rfl, writeStep_members hb' rfl, htyped]
  | items hi =>
      have hi' := (h.outline.items? r).trans hi
      rw [writeStep_items hi rfl, writeStep_items hi' rfl, htyped]
  | fields ho =>
      have ho' := (h.outline.isObject r).trans ho
      have hperm := h.storedFields_perm ho (hw.names r hr ho)
      rw [writeStep_fields ho rfl, writeStep_fields ho' rfl, htyped, hw.storage_eq hr ho, hv.storage_eq hr ho',
        writtenFields_perm hperm (distinct_storedFields w r)]

/-- The term of a value is the same where every mapping in it is, or where the ties of that mapping agree. -/
theorem termOf_reordered (hw : Data w S) (hac : w.Acyclic S) (h : w.Reorders v) (hr : r ∈ S)
    (hties : ∀ x, Relation.ReflTransGen w.Part r x → ∀ entries, w.body x = .mapping entries →
      v.body x = w.body x ∨
        (∀ e ∈ entries, Succeeds (literalOf w S e.1)) ∧ TiesAgree w (termOf w S) entries) :
    termOf v S r = termOf w S r := by
  have hS := hw.graph.toClosed
  have hv := (hw.reordered h).graph.toClosed
  have hacv := hw.acyclic_reordered hac h
  induction hh : w.height S r using Nat.strong_induction_on generalizing r with
  | _ n ih =>
    rw [termOf_eq hS hac hr, termOf_eq hv hacv hr]
    calc writeStep v (fun _ _ c => termOf v S c) [] .root r
        = writeStep v (fun _ _ c => termOf w S c) [] .root r := by
          refine writeStep_const_congr fun c hc => ?_
          have hc' := hw.part_reordered h hr hc
          have hcS := hS.parts r hr c hc'
          exact ih _ (hh ▸ height_lt hac hcS hc') hcS (fun x hx => hties x (.head hc' hx)) rfl
      _ = writeStep w (fun _ _ c => termOf w S c) [] .root r := writeStep_reordered hw h hr (hties r .refl)

end Worlds

end Introspect.Perl
