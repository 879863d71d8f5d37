import Introspect.Proofs.Perl.Termination
/-!
Terms of acyclic values. Nothing that is being written is met again inside itself, so that a term depends
neither on what is in progress nor on the path it stands at.
-/
namespace Introspect.Perl

open World

variable {w : World} {S : List Ref} {r k : Ref}

/-! ## Writers that agree on the parts -/

section Congr

variable {f f' : Active → Path → Ref → Except Fault Term} {active active' : Active} {p p' : Path}

theorem writtenText_congr (h : f [] .root r = f' [] .root r) : writtenText f r = writtenText f' r := by
  rw [writtenText, writtenText, h]

theorem writtenKey_congr (h : f [] .root k = f' [] .root k) : writtenKey w f k = writtenKey w f' k := by
  unfold writtenKey
  rw [writtenText_congr h]

theorem writtenItems_congr {items : List Ref} (h : ∀ c ∈ items, ∀ q q', f active q c = f' active' q' c)
    (index : Nat) : writtenItems f active p index items = writtenItems f' active' p' index items := by
  induction items generalizing index with
  | nil => rfl
  | cons c rest ih =>
      rw [writtenItems, writtenItems, h c List.mem_cons_self _ (.item p' index),
        ih fun c hc => h c (List.mem_cons_of_mem _ hc)]

theorem writtenArray_congr {items : List Ref} (h : ∀ c ∈ items, ∀ q q', f active q c = f' active' q' c) :
    writtenArray f active p items = writtenArray f' active' p' items := by
  rw [writtenArray, writtenArray, writtenItems_congr h]

theorem writtenEntries_congr {pairs : List (List Char × Ref)}
    (h : ∀ e ∈ pairs, ∀ q q', f active q e.2 = f' active' q' e.2) :
    writtenEntries f active p pairs = writtenEntries f' active' p' pairs := by
  induction pairs with
  | nil => rfl
  | cons e rest ih =>
      rw [writtenEntries, writtenEntries, h e List.mem_cons_self _ (.entry p' e.1),
        ih fun e he => h e (List.mem_cons_of_mem _ he)]

theorem writtenHash_congr {pairs : List (List Char × Ref)}
    (h : ∀ e ∈ pairs, ∀ q q', f active q e.2 = f' active' q' e.2) :
    writtenHash f active p pairs = writtenHash f' active' p' pairs := by
  rw [writtenHash, writtenHash, writtenEntries_congr fun e he => h e (mem_byText.mp he)]

theorem writtenMapping_congr {entries : List (Ref × Ref)}
    (hvalues : ∀ e ∈ entries, ∀ q q', f active q e.2 = f' active' q' e.2)
    (hkeys : ∀ e ∈ entries, f [] .root e.1 = f' [] .root e.1) :
    writtenMapping w f active p entries = writtenMapping w f' active' p' entries := by
  have hpairs : (entries.mapM fun e : Ref × Ref => do return (← writtenKey w f e.1, e.2)) =
      entries.mapM fun e : Ref × Ref => do return (← writtenKey w f' e.1, e.2) :=
    mapM_congr fun e he => by rw [writtenKey_congr (hkeys e he)]
  simp only [writtenMapping, hpairs]
  cases hm : entries.mapM fun e : Ref × Ref => do return (← writtenKey w f' e.1, e.2) with
  | error fault => rfl
  | ok pairs =>
      exact writtenHash_congr (forall_kept (P := fun c => ∀ q q', f active q c = f' active' q' c) hm hvalues)

theorem writtenMembers_congr {items : List Ref}
    (hplaces : ∀ c ∈ items, ∀ q q', f active q c = f' active' q' c)
    (halone : ∀ c ∈ items, f [] .root c = f' [] .root c) :
    writtenMembers f active p items = writtenMembers f' active' p' items := by
  have hpairs : (items.mapM fun c => do return (← writtenText f c, c)) =
      items.mapM fun c => do return (← writtenText f' c, c) :=
    mapM_congr fun c hc => by rw [writtenText_congr (halone c hc)]
  simp only [writtenMembers, hpairs]
  cases hm : items.mapM fun c => do return (← writtenText f' c, c) with
  | error fault => rfl
  | ok pairs =>
      refine writtenArray_congr fun c hc => ?_
      obtain ⟨y, hy, rfl⟩ := List.mem_map.mp hc
      exact forall_kept (P := fun c => ∀ q q', f active q c = f' active' q' c) hm hplaces y (mem_byText.mp hy)

theorem writtenFields_congr {fields : List (String × Ref)}
    (h : ∀ e ∈ fields, ∀ q q', f active q e.2 = f' active' q' e.2) :
    writtenFields f active p fields = writtenFields f' active' p' fields := by
  refine writtenHash_congr fun y hy => ?_
  obtain ⟨e, he, rfl⟩ := List.mem_map.mp hy
  exact h e he

theorem writeStep_congr (hl : active.lookup r = none) (hl' : active'.lookup r = none)
    (h : ∀ c, w.Part r c → (∀ q q', f ((r, p) :: active) q c = f' ((r, p') :: active') q' c) ∧
      f [] .root c = f' [] .root c) :
    writeStep w f active p r = writeStep w f' active' p' r := by
  cases shape w r with
  | leaf hleaf =>
      unfold isLeaf at hleaf
      unfold writeStep
      cases hb : w.body r <;> simp_all
  | box hb => rw [writeStep_box hb hl, writeStep_box hb hl', (h _ (.inl (.content hb))).1 _ (.target p')]
  | mapping hb =>
      rw [writeStep_mapping hb hl, writeStep_mapping hb hl', writtenMapping_congr
        (fun e he => (h e.2 (.inl (.value (k := e.1) hb he))).1)
        fun e he => (h e.1 (.inr (.key (v := e.2) hb he))).2]
  | members hb =>
      rw [writeStep_members hb hl, writeStep_members hb hl', writtenMembers_congr
        (fun c hc => (h c (.inr (.member hb hc))).1) fun c hc => (h c (.inr (.member hb hc))).2]
  | items hi =>
      rw [writeStep_items hi hl, writeStep_items hi hl',
        writtenArray_congr fun c hc => (h c (.inl (.item hi hc))).1]
  | fields ho =>
      rw [writeStep_fields ho hl, writeStep_fields ho hl',
        writtenFields_congr fun e he => (h e.2 (.inl (.field (n := e.1) ho he))).1]

/-- Values of the parts are all that a step needs. -/
theorem writeStep_const_congr {g g' : Ref → Except Fault Term} (h : ∀ c, w.Part r c → g c = g' c) :
    writeStep w (fun _ _ => g) [] .root r = writeStep w (fun _ _ => g') [] .root r :=
  writeStep_congr rfl rfl fun c hc => ⟨fun _ _ => h c hc, h c hc⟩

end Congr

/-! ## The term of an acyclic value -/

/-- Nothing that is in progress is the reference or a part in it. -/
def Apart (w : World) (active : Active) (r : Ref) : Prop :=
  ∀ y, active.lookup y ≠ none → ¬ Relation.ReflTransGen w.Part r y

theorem Apart.lookup {active : Active} (h : Apart w active r) : active.lookup r = none := by
  by_contra hl
  exact h r hl .refl

theorem Apart.part {active : Active} {p : Path} {c : Ref} (hac : w.Acyclic S) (hr : r ∈ S)
    (h : Apart w active r) (hc : w.Part r c) : Apart w ((r, p) :: active) c := by
  intro y hy hcy
  have hry : Relation.TransGen w.Part r y := .head' hc hcy
  by_cases hyr : y = r
  · exact hac r hr (hyr ▸ hry)
  · exact h y (fun hl => hy (lookup_cons_eq_none.mpr ⟨hyr, hl⟩)) hry.to_reflTransGen

/-- What is apart from all that is in progress is written as if nothing were. -/
theorem write_of_apart (hS : w.Closed S) (hac : w.Acyclic S) (depth : Nat) {active : Active} (p : Path)
    (hr : r ∈ S) (h : Apart w active r) : write w depth active p r = write w depth [] .root r := by
  induction depth generalizing active p r with
  | zero => rfl
  | succ depth ih =>
      rw [write, write]
      refine writeStep_congr h.lookup rfl fun c hc => ⟨fun q q' => ?_, rfl⟩
      have hcS := hS.parts r hr c hc
      have hnone : Apart w [] r := fun y hy => absurd rfl hy
      rw [ih q hcS (h.part hac hr hc), ih q' hcS (hnone.part hac hr hc)]

noncomputable def termOf (w : World) (S : List Ref) (r : Ref) : Except Fault Term :=
  write w (w.height S r + 1) [] .root r

theorem write_eq_step (hS : w.Closed S) (hac : w.Acyclic S) (hr : r ∈ S) {depth : Nat}
    (hd : w.height S r < depth) :
    write w depth [] .root r = writeStep w (fun _ _ c => termOf w S c) [] .root r := by
  obtain ⟨depth, rfl⟩ := Nat.exists_eq_add_of_lt hd
  induction hh : w.height S r using Nat.strong_induction_on generalizing r depth with
  | _ n ih =>
    rw [write]
    refine writeStep_congr rfl rfl fun c hc => ?_
    have hcS := hS.parts r hr c hc
    have hlt := height_lt hac hcS hc
    have hnone : Apart w [] r := fun y hy => absurd rfl hy
    have hsame : write w (n + depth) [] .root c = termOf w S c := by
      obtain ⟨more, hmore⟩ := Nat.exists_eq_add_of_lt (show w.height S c < n + depth by omega)
      rw [hmore, ih _ (by omega) hcS _ (by omega) rfl, termOf]
      exact (ih _ (by omega) hcS 0 (by omega) rfl).symm
    refine ⟨fun q q' => ?_, hsame⟩
    rw [write_of_apart hS hac _ q hcS (hnone.part hac hr hc)]
    exact hsame

theorem termOf_eq (hS : w.Closed S) (hac : w.Acyclic S) (hr : r ∈ S) :
    termOf w S r = writeStep w (fun _ _ c => termOf w S c) [] .root r :=
  write_eq_step hS hac hr (Nat.lt_succ_self _)

theorem write_eq_termOf (hS : w.Closed S) (hac : w.Acyclic S) (hr : r ∈ S) {depth : Nat}
    (hd : w.height S r < depth) : write w depth [] .root r = termOf w S r := by
  rw [write_eq_step hS hac hr hd, termOf_eq hS hac hr]

noncomputable def literalOf (w : World) (S : List Ref) (k : Ref) : Except Fault (List Char) :=
  writtenKey w (fun _ _ c => termOf w S c) k

def literal (k : Ref) : Act (List Char) := do keyLiteral (termWithin (← get).nesting) k

theorem settles_encode_termOf (hG : Graph w S) (hac : w.Acyclic S) (hr : r ∈ S) (indent : Int) :
    w.Settles (encode r indent) ((·.render indent) <$> termOf w S r) := by
  filter_upwards [hG.eventually_ready, Filter.eventually_gt_atTop (w.height S r)] with n hready hn
  rw [← write_eq_termOf hG.toClosed hac hr hn]
  exact steady_encode hG hready hr indent

theorem settles_literal (hG : Graph w S) (hac : w.Acyclic S) (hk : k ∈ S) :
    w.Settles (literal k) (literalOf w S k) := by
  filter_upwards [hG.eventually_ready, Filter.eventually_gt_atTop (w.height S k)] with n hready hn
  have halone : write w n [] .root k = termOf w S k := write_eq_termOf hG.toClosed hac hk hn
  have hkey : writtenKey w (write w n) k = literalOf w S k := by
    unfold literalOf
    exact writtenKey_congr halone
  refine .get fun v hv => ?_
  have hready' := hready.mono hv
  rw [hv.nesting, ← hkey]
  exact steady_keyLiteral hG hready' (fun active p r hr => steady_termWithin hG hready' n active p hr) hk

theorem not_loops_of_acyclic (hac : w.Acyclic S) (hS : w.Closed S) (hr : r ∈ S) : ¬ Loops w r := by
  rintro ⟨x, k, hx, hk, hback⟩
  exact hac x (hx.mem hS hr) (.head' (Writes.part (.inr hk)) hback.parts)

theorem termOf_of_settles (hG : Graph w S) (hac : w.Acyclic S) (hr : r ∈ S) {text : String}
    (h : w.Settles (encode r 0) (.ok text)) : ∃ t, termOf w S r = .ok t ∧ t.render 0 = text :=
  map_ok_iff.mp ((settles_encode_termOf hG hac hr 0).unique h)

theorem settles_of_termOf (hG : Graph w S) (hac : w.Acyclic S) (hr : r ∈ S) {t : Term}
    (h : termOf w S r = .ok t) (indent : Int) : w.Settles (encode r indent) (.ok (t.render indent)) := by
  have hsettles := settles_encode_termOf hG hac hr indent
  rw [h] at hsettles
  exact hsettles

/-- An acyclic value is written if its plain values have texts. -/
theorem succeeds_termOf (hS : w.Closed S) (hac : w.Acyclic S) (hr : r ∈ S)
    (hlegible : ∀ y, Reaches w r y → Legible w y) : Succeeds (termOf w S r) := by
  have hends : Succeeds (write w (measure w S [] r + 2) [] .root r) :=
    succeeds_of_measure hS le_rfl hr (not_loops_of_acyclic hac hS hr) hlegible
  obtain ⟨t, ht⟩ := hends
  refine ⟨t, ?_⟩
  rw [← write_eq_termOf hS hac hr (Nat.lt_succ_of_le (Nat.le_max_right (measure w S [] r + 2) _))]
  exact extends_write (Nat.le_succ_of_le (Nat.le_max_left _ _)) [] .root r t ht

end Introspect.Perl
