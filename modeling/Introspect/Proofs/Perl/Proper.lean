import Introspect.Proofs.Pairs
import Introspect.Proofs.Perl.Acyclic
import Introspect.Proofs.Perl.Leaves
/-!
Written terms are proper, if numbers that are keys have closed texts. So one compact text belongs to one term.
-/
namespace Introspect.Perl

open World Dispatch

/-- Data with all its parts. Attributes have names of their own, and a payload of a number that is none
holds nothing that means something in a dump. -/
structure Data (w : World) (S : List Ref) : Prop where
  sound : w.registry.Sound
  has : ∀ r ∈ S, w.Has r
  data : ∀ r ∈ S, isData w r = true
  parts : ∀ r ∈ S, ∀ c ∈ w.parts r, c ∈ S
  names : ∀ r ∈ S, w.isObject r = true → Pairs.Distinct ((w.dictionary? r).getD [])
  payloads : ∀ r ∈ S, ∀ n, w.body r = .atom (.number n) → ∀ negative signaling payload,
    n = .decimal (.nan negative signaling payload) → IsPlain payload

variable {w : World} {S : List Ref} {r k : Ref} {g : Ref → Except Fault Term} {t : Term}

namespace Data

theorem graph (hw : Data w S) : Graph w S := graph_of_isData hw.sound hw.has hw.data hw.parts

theorem answer_atomTerm (hw : Data w S) (hr : r ∈ S) {a : Atom} (ha : w.body r = .atom a) :
    w.answer (atomTerm r a) = contentOf a :=
  (settles_atomTerm (hw.data r hr) (hw.has r hr) ha).answer_eq

theorem answer_textOf (hw : Data w S) (hr : r ∈ S) {n : Number} (hn : w.body r = .atom (.number n)) :
    w.answer (Dispatch.ask.textOf r) = (Atom.number n).asText :=
  (settles_textOf_number (isOrdinary_of_isData (hw.data r hr) (hw.has r hr) hn)).answer_eq

theorem storage_eq (hw : Data w S) (hr : r ∈ S) (ho : w.isObject r = true) :
    w.storage r = w.storedFields r :=
  World.storage_eq (settles_fields (storesQuietly_of_isData (hw.data r hr) ho))

theorem acyclic_of_parts (hw : Data w S) (rank : Ref → Nat)
    (h : ∀ r ∈ S, ∀ c ∈ w.parts r, rank c < rank r) : w.Acyclic S :=
  hw.graph.toClosed.acyclic_of_rank rank fun r hr c hc =>
    h r hr c (mem_parts (storesQuietly_of_isData (hw.data r hr)) hc)

end Data

theorem writtenItems_const (active : Active) (p : Path) (index : Nat) (items : List Ref) :
    writtenItems (fun _ _ => g) active p index items = items.mapM g := by
  induction items generalizing index with
  | nil => rfl
  | cons c rest ih =>
      rw [writtenItems, List.mapM_cons, ih]

theorem writtenEntries_const (active : Active) (p : Path) (pairs : List (List Char × Ref)) :
    writtenEntries (fun _ _ => g) active p pairs = pairs.mapM fun e => do return (e.1, ← g e.2) := by
  induction pairs with
  | nil => rfl
  | cons e rest ih =>
      rw [writtenEntries, List.mapM_cons, ih]
      cases g e.2 <;> rfl

/-! ## One step -/

/-- The numbers among the keys of mappings have closed texts. -/
def KeysClosed (w : World) (S : List Ref) : Prop :=
  ∀ r ∈ S, ∀ entries, w.body r = .mapping entries → ∀ e ∈ entries, ∀ n, w.body e.1 = .atom (.number n) →
    ∀ s, w.Settles (Dispatch.ask.textOf e.1) (.ok s) → Closed s.toList

section Step

variable {recur : Active → Path → Ref → Except Fault Term} {active : Active} {p : Path}

theorem proper_array {items : List Ref} (hp : p.Proper)
    (hparts : ∀ c ∈ items, ∀ q, q.Proper → ∀ t, recur active q c = .ok t → Proper t)
    (h : writtenArray recur active p items = .ok t) : Proper t := by
  obtain ⟨ts, hts, h⟩ := bind_ok_iff.mp h
  cases h
  have hitems : List.Forall₂ (fun t _ => Proper t ∧ True) ts items :=
    forall₂_of_writtenItems hts fun index c hc t ht =>
      ⟨hparts c (List.mem_of_getElem? hc) (.item p (0 + index)) hp t ht, trivial⟩
  exact .array ((List.forall₂_and_left _ _).mp hitems).1

theorem proper_hash {pairs : List (List Char × Ref)} (hp : p.Proper) (hkeys : ∀ e ∈ pairs, Closed e.1)
    (hparts : ∀ e ∈ pairs, ∀ q, q.Proper → ∀ t, recur active q e.2 = .ok t → Proper t)
    (h : writtenHash recur active p pairs = .ok t) : Proper t := by
  obtain ⟨ts, hts, h⟩ := bind_ok_iff.mp h
  cases h
  obtain ⟨hsame, hvalues⟩ := forall₂_of_writtenEntries (P := fun t _ => Proper t ∧ True) hts fun e he t ht =>
    ⟨hparts e (mem_byText.mp he) (.entry p e.1) ⟨hp, hkeys e (mem_byText.mp he)⟩ t ht, trivial⟩
  refine .hash (fun y hy => ?_) fun y hy => ((List.forall₂_and_left _ _).mp hvalues).1 _ (List.mem_map_of_mem hy)
  have hmem : y.1 ∈ (byText pairs).map (·.1) := hsame ▸ List.mem_map_of_mem hy
  obtain ⟨e, he, hkey⟩ := List.mem_map.mp hmem
  exact hkey ▸ hkeys e (mem_byText.mp he)

theorem closed_writtenKey (hG : Graph w S) (hk : k ∈ S)
    (hnumber : ∀ n, w.body k = .atom (.number n) → ∀ s, w.Settles (Dispatch.ask.textOf k) (.ok s) → Closed s.toList)
    (halone : ∀ t, recur [] .root k = .ok t → Proper t) {text : List Char}
    (h : writtenKey w recur k = .ok text) : Closed text := by
  have hcompact (h : writtenText recur k = .ok text) : Closed text := by
    obtain ⟨t, ht, h⟩ := bind_ok_iff.mp h
    cases h
    exact (halone t ht).closed 0
  unfold writtenKey at h
  cases ha : w.atom? k with
  | none => rw [ha] at h; exact hcompact h
  | some a =>
      rw [ha] at h
      cases a with
      | none => exact hcompact h
      | text s => cases h; exact closed_quote _
      | bytes content => cases h; exact closed_quote _
      | bool b => cases h; cases b <;> exact closed_of_all (by decide)
      | number n =>
          have hbody : w.body k = .atom (.number n) := body_of_atom? ha
          obtain ⟨s, hs, rfl⟩ := map_ok_iff.mp h
          exact hnumber n hbody s (hs ▸ settles_answer (hG.numbers k hk n hbody))

theorem Proper.typed (h : Proper t) : Proper (typed w r t) := by
  unfold Perl.typed
  split
  · exact h
  · exact .blessed _ h

theorem proper_typed {x : Except Fault Term} (hx : ∀ t, x = .ok t → Proper t) (h : typed w r <$> x = .ok t) :
    Proper t := by
  obtain ⟨t', ht', rfl⟩ := map_ok_iff.mp h
  exact (hx t' ht').typed

theorem proper_mapping (hG : Graph w S) (hK : KeysClosed w S) (hr : r ∈ S) {entries : List (Ref × Ref)}
    (hb : w.body r = .mapping entries) (hp : p.Proper)
    (hparts : ∀ e ∈ entries, ∀ q, q.Proper → ∀ t, recur active q e.2 = .ok t → Proper t)
    (halone : ∀ e ∈ entries, ∀ t, recur [] .root e.1 = .ok t → Proper t)
    (h : writtenMapping w recur active p entries = .ok t) : Proper t := by
  obtain ⟨pairs, hpairs, h⟩ := bind_ok_iff.mp h
  have hkeys : ∀ y ∈ pairs, Closed y.1 := forall_of_mapM hpairs fun e he y hy => by
    obtain ⟨text, hkey, hy⟩ := bind_ok_iff.mp hy
    cases hy
    exact closed_writtenKey hG (hG.key hr hb he) (hK r hr entries hb e he) (halone e he) hkey
  exact proper_hash hp hkeys (forall_kept (P := fun c => ∀ q, q.Proper → ∀ t, recur active q c = .ok t → Proper t)
    hpairs hparts) h

theorem proper_members {items : List Ref} (hp : p.Proper)
    (hparts : ∀ c ∈ items, ∀ q, q.Proper → ∀ t, recur active q c = .ok t → Proper t)
    (h : writtenMembers recur active p items = .ok t) : Proper t := by
  obtain ⟨pairs, hpairs, h⟩ := bind_ok_iff.mp h
  refine proper_array hp (fun c hc => ?_) h
  obtain ⟨y, hy, rfl⟩ := List.mem_map.mp hc
  exact forall_kept (P := fun c => ∀ q, q.Proper → ∀ t, recur active q c = .ok t → Proper t) hpairs hparts y
    (mem_byText.mp hy)

theorem proper_writeStep (hG : Graph w S) (hK : KeysClosed w S) (hr : r ∈ S) (hp : p.Proper)
    (hactive : ∀ q, active.lookup r = some q → q.Proper)
    (hparts : ∀ c, w.Part r c → ∀ q, q.Proper → ∀ t, recur ((r, p) :: active) q c = .ok t → Proper t)
    (halone : ∀ c, w.Part r c → ∀ t, recur [] .root c = .ok t → Proper t)
    (h : writeStep w recur active p r = .ok t) : Proper t := by
  cases hleaf : isLeaf w r with
  | true =>
      rw [writeStep_leaf active p hleaf] at h
      exact (hG.leaf_of_leafTerm hr h).proper
  | false =>
      cases hl : active.lookup r with
      | some q =>
          rw [writeStep_again hleaf hl] at h
          cases h
          exact .path (hactive q hl)
      | none =>
          cases shape w r with
          | leaf hleaf' => rw [hleaf] at hleaf'; cases hleaf'
          | @box c _ hb =>
              rw [writeStep_box hb hl] at h
              obtain ⟨t', ht', rfl⟩ := map_ok_iff.mp h
              exact .reference (hparts c (.inl (.content hb)) (.target p) hp t' ht')
          | mapping hb =>
              rw [writeStep_mapping hb hl] at h
              exact proper_typed (fun t => proper_mapping hG hK hr hb hp
                (fun e he => hparts e.2 (.inl (.value (k := e.1) hb he)))
                fun e he => halone e.1 (.inr (.key (v := e.2) hb he))) h
          | members hb =>
              rw [writeStep_members hb hl] at h
              exact proper_typed (fun t => proper_members hp fun c hc => hparts c (.inr (.member hb hc))) h
          | items hi =>
              rw [writeStep_items hi hl] at h
              exact proper_typed (fun t => proper_array hp fun c hc => hparts c (.inl (.item hi hc))) h
          | fields ho =>
              rw [writeStep_fields ho hl] at h
              refine proper_typed (fun t => proper_hash hp (fun y hy => ?_) fun y hy => ?_) h
              · obtain ⟨e, -, rfl⟩ := List.mem_map.mp hy
                exact closed_quote _
              · obtain ⟨e, he, rfl⟩ := List.mem_map.mp hy
                exact hparts e.2 (.inl (.field (n := e.1) ho he))

end Step

/-! ## Written terms -/

theorem proper_write (hG : Graph w S) (hK : KeysClosed w S) (depth : Nat) {active : Active} {p : Path} (hr : r ∈ S)
    (hp : p.Proper) (hactive : ∀ y q, active.lookup y = some q → q.Proper)
    (h : write w depth active p r = .ok t) : Proper t := by
  induction depth generalizing active p r t with
  | zero => cases h
  | succ depth ih =>
      refine proper_writeStep hG hK hr hp (hactive r) (fun c hc q hq t ht => ?_) (fun c hc t ht => ?_) h
      · refine ih (hG.parts r hr c hc) hq (fun y q' hy => ?_) ht
        rw [List.lookup_cons] at hy
        split at hy
        · cases hy
          exact hp
        · exact hactive y q' hy
      · exact ih (p := .root) (hG.parts r hr c hc) trivial (fun y q hy => by cases hy) ht

theorem Data.keysClosed (hw : Data w S) : KeysClosed w S := fun r hr entries hb e he n hn s hs => by
  have hk := hw.graph.key hr hb he
  have hord := isOrdinary_of_isData (hw.data _ hk) (hw.has _ hk) hn
  rw [text_of_asText ((settles_textOf_number hord).unique hs)]
  exact closed_number n (hw.payloads _ hk n hn)

theorem proper_termOf (hw : Data w S) (hr : r ∈ S) (h : termOf w S r = .ok t) : Proper t :=
  proper_write hw.graph hw.keysClosed _ (p := .root) hr trivial (fun y q hy => by cases hy) h

theorem term_of_text {a b : Ref} {ta tb : Term} (hw : Data w S) (ha : a ∈ S) (hb : b ∈ S)
    (hta : termOf w S a = .ok ta) (htb : termOf w S b = .ok tb) (h : ta.render 0 = tb.render 0) : ta = tb :=
  (proper_termOf hw ha hta).chars_inj (proper_termOf hw hb htb) (String.ofList_injective h)

end Introspect.Perl
