import Introspect.Proofs.Equality.Spelling
import Introspect.Proofs.Perl.Canonical
import Introspect.Proofs.Perl.Structure
/-!
Values of the host's own classes that share a dump. Their parts share dumps too: elements one by one, and entries
under the literals of their keys.
-/
namespace Introspect.Perl

open World

/-- Plain values without fractions, sequences, mappings and sets of the host's own classes. -/
inductive Builtin (w : World) (r : Ref) : Prop where
  | plain {x : Atom} : w.body r = .atom x → Equality.Integral x → w.classOf r = .native (atomClass x) → Builtin w r
  | sequence {items : List Ref} : w.body r = .sequence items →
      w.classOf r = .native .list ∨ w.classOf r = .native .tuple → Builtin w r
  | mapping {entries : List (Ref × Ref)} : w.body r = .mapping entries → w.classOf r = .native .dict → Builtin w r
  | members {items : List Ref} : w.body r = .members items →
      w.classOf r = .native .set ∨ w.classOf r = .native .frozenset → Builtin w r

/-- Acyclic values of these kinds with all their parts. The keys of a mapping are different ones, and types are
registered under the names of their classes. -/
structure Builtins (w : World) (S : List Ref) : Prop where
  sound : w.registry.Sound
  has : ∀ r ∈ S, w.Has r
  kinds : ∀ r ∈ S, Builtin w r
  parts : ∀ r ∈ S, ∀ c ∈ w.parts r, c ∈ S
  acyclic : w.Acyclic S
  keys : ∀ r ∈ S, ∀ entries, w.body r = .mapping entries → entries.Pairwise fun e e' => ¬ w.SameKey e.1 e'.1
  named : ∀ r ∈ S, Registry.typeName w r = (w.info (w.classOf r)).fullName

variable {w : World} {S : List Ref} {r a b : Ref} {x : Atom} {t : Term}

theorem ShareLiteral.symm {k k' : Ref} (h : ShareLiteral w k k') : ShareLiteral w k' k := h.imp fun _ => And.symm

theorem ShareLiteral.trans {k k' k'' : Ref} (h : ShareLiteral w k k') (h' : ShareLiteral w k' k'') :
    ShareLiteral w k k'' := by
  obtain ⟨text, hk, hk'⟩ := h
  obtain ⟨text', hk₁, hk''⟩ := h'
  cases hk'.unique hk₁
  exact ⟨text, hk, hk''⟩

namespace Builtin

theorem isObject (h : Builtin w r) : w.isObject r = false := by
  cases h with
  | plain hb => simp only [World.isObject, hb]
  | sequence hb => simp only [World.isObject, hb]
  | mapping hb => simp only [World.isObject, hb]
  | members hb => simp only [World.isObject, hb]

theorem isData (h : Builtin w r) : isData w r = true := by
  have ho := h.isObject
  cases h with
  | plain hb hint hc =>
      rename_i x
      cases x with
      | number n => simp only [Perl.isData, hb, hc, decide_true]
      | _ => simp [Perl.isData, hb, ho]
  | sequence hb => simp [Perl.isData, hb, ho]
  | mapping hb => simp [Perl.isData, hb, ho]
  | members hb => simp [Perl.isData, hb, ho]

theorem isComparable (h : Builtin w r) : Equality.isData w r = true := by
  cases h with
  | plain hb hint hc => simp only [Equality.isData, hb, hc, decide_true]
  | sequence hb => simp only [Equality.isData, hb]
  | mapping hb => simp only [Equality.isData, hb]
  | members hb => simp only [Equality.isData, hb]

theorem integral (h : Builtin w r) (hx : w.body r = .atom x) :
    Equality.Integral x ∧ w.classOf r = .native (atomClass x) := by
  cases h with
  | plain hb hint hc =>
      rw [hb] at hx
      cases hx
      exact ⟨hint, hc⟩
  | sequence hb => rw [hb] at hx; cases hx
  | mapping hb => rw [hb] at hx; cases hx
  | members hb => rw [hb] at hx; cases hx

/-- A container is written without its class. -/
theorem typed_eq (h : Builtin w r) (hx : ∀ x, w.body r ≠ .atom x) (t : Term) : typed w r t = t := by
  refine typed_ordinary ?_ t
  cases h with
  | plain hb => exact absurd hb (hx _)
  | sequence _ hc => rcases hc with hc | hc <;> (rw [hc]; decide)
  | mapping _ hc => rw [hc]; decide
  | members _ hc => rcases hc with hc | hc <;> (rw [hc]; decide)

end Builtin

namespace Builtins

variable (hw : Builtins w S)
include hw

theorem data : Data w S where
  sound := hw.sound
  has := hw.has
  data r hr := (hw.kinds r hr).isData
  parts := hw.parts
  names r hr ho := by rw [(hw.kinds r hr).isObject] at ho; cases ho
  payloads r hr n hn _ _ _ hpayload := by
    obtain ⟨i, rfl⟩ := ((hw.kinds r hr).integral hn).1 n rfl
    cases hpayload

theorem graph : Equality.Graph w S :=
  Equality.graph_of_isData hw.sound hw.has (fun r hr => (hw.kinds r hr).isComparable) hw.parts fun a ha b hb _ => by
    rw [(hw.kinds a ha).isObject, (hw.kinds b hb).isObject]

theorem isOrdinary (hr : r ∈ S) (hx : w.body r = .atom x) : w.IsOrdinary r x :=
  ⟨hw.has r hr, hx, ((hw.kinds r hr).integral hx).2⟩

/-! ## Parts that share dumps -/

theorem shareDump_of_termOf (ha : a ∈ S) (hb : b ∈ S) (hta : termOf w S a = .ok t) (htb : termOf w S b = .ok t) :
    ShareDump w a b :=
  ⟨_, settles_of_termOf hw.data.graph hw.acyclic ha hta 0, settles_of_termOf hw.data.graph hw.acyclic hb htb 0⟩

theorem exists_termOf (ha : a ∈ S) (hb : b ∈ S) (h : ShareDump w a b) :
    ∃ t, termOf w S a = .ok t ∧ termOf w S b = .ok t := by
  have hsame := h.termOf_eq hw.data hw.acyclic ha hb
  obtain ⟨text, htext, -⟩ := h
  obtain ⟨t, ht, -⟩ := termOf_of_settles hw.data.graph hw.acyclic ha htext
  exact ⟨t, ht, hsame.symm.trans ht⟩

theorem termOf_items {items : List Ref} (hr : r ∈ S) (hi : w.items? r = some items) :
    termOf w S r = Term.array <$> items.mapM (termOf w S) := by
  have hplain : ∀ x, w.body r ≠ .atom x := fun x hx => by simp only [items?, hx] at hi; cases hi
  rw [Perl.termOf_eq hw.data.graph.toClosed hw.acyclic hr, writeStep_items hi rfl, writtenArray, writtenItems_const]
  cases items.mapM (termOf w S) with
  | error fault => rfl
  | ok ts => exact congrArg Except.ok ((hw.kinds r hr).typed_eq hplain _)

theorem written_entries {entries : List (Ref × Ref)} (hr : r ∈ S) (hb : w.body r = .mapping entries)
    (ht : termOf w S r = .ok t) :
    (∀ e ∈ entries, w.Settles (literal e.1) (.ok (keyText w (termOf w S) e.1))) ∧
      ∃ found : List (Ref × Ref), found.Perm entries ∧ ∃ written, t = .hash written ∧
        found.mapM (fun e => do return (keyText w (termOf w S) e.1, ← termOf w S e.2)) = .ok written := by
  rw [Perl.termOf_eq hw.data.graph.toClosed hw.acyclic hr, writeStep_mapping hb rfl] at ht
  obtain ⟨t', ht', rfl⟩ := map_ok_iff.mp ht
  have hkeys : ∀ e ∈ entries, Succeeds (writtenKey w (fun _ _ => termOf w S) e.1) := by
    obtain ⟨pairs, hpairs, -⟩ := bind_ok_iff.mp ht'
    exact succeeds_kept.mp ⟨pairs, hpairs⟩
  rw [writtenMapping_eq hkeys, writtenHash, writtenEntries_const] at ht'
  obtain ⟨written, hwritten, ht'⟩ := bind_ok_iff.mp ht'
  cases ht'
  obtain ⟨found, hp, hfound⟩ := byText_map (fun e : Ref × Ref => (keyText w (termOf w S) e.1, e.2)) entries
  rw [hfound, List.mapM_map] at hwritten
  refine ⟨fun e he => ?_, found, hp, written, (hw.kinds r hr).typed_eq (fun x hx => ?_) _, hwritten⟩
  · have hsettles := settles_literal hw.data.graph hw.acyclic (hw.data.graph.key hr hb he)
    rwa [literalOf, writtenKey_eq (hkeys e he)] at hsettles
  · rw [hb] at hx
    cases hx

theorem shareDump_items {xs ys : List Ref} (ha : a ∈ S) (hb : b ∈ S) (h : ShareDump w a b) (hx : w.items? a = some xs)
    (hy : w.items? b = some ys) : List.Forall₂ (ShareDump w) xs ys := by
  obtain ⟨t, hta, htb⟩ := hw.exists_termOf ha hb h
  obtain ⟨ts, hxs, rfl⟩ := map_ok_iff.mp ((hw.termOf_items ha hx).symm.trans hta)
  obtain ⟨ts', hys, ht'⟩ := map_ok_iff.mp ((hw.termOf_items hb hy).symm.trans htb)
  cases ht'
  refine forall₂_of_mapM hxs hys fun c hc d hd t htc htd => ?_
  exact hw.shareDump_of_termOf (hw.data.graph.parts a ha c (.inl (.item hx hc)))
    (hw.data.graph.parts b hb d (.inl (.item hy hd))) htc htd

theorem shareDump_entries {xs ys : List (Ref × Ref)} (ha : a ∈ S) (hb : b ∈ S) (h : ShareDump w a b)
    (hx : w.body a = .mapping xs) (hy : w.body b = .mapping ys) :
    ∃ found found' : List (Ref × Ref), found.Perm xs ∧ found'.Perm ys ∧
      List.Forall₂ (fun e e' => ShareLiteral w e.1 e'.1 ∧ ShareDump w e.2 e'.2) found found' := by
  obtain ⟨t, hta, htb⟩ := hw.exists_termOf ha hb h
  obtain ⟨hkeys, found, hp, written, rfl, hwritten⟩ := hw.written_entries ha hx hta
  obtain ⟨hkeys', found', hp', written', ht', hwritten'⟩ := hw.written_entries hb hy htb
  cases ht'
  refine ⟨found, found', hp, hp', forall₂_of_mapM hwritten hwritten' fun e he e' he' y hy₁ hy₂ => ?_⟩
  obtain ⟨v, hv, hy₁⟩ := bind_ok_iff.mp hy₁
  obtain ⟨v', hv', hy₂⟩ := bind_ok_iff.mp hy₂
  cases hy₁
  obtain ⟨hkey, rfl⟩ := Prod.mk.inj (Except.ok.inj hy₂)
  have hshare := hkeys' e' (hp'.subset he')
  rw [hkey] at hshare
  exact ⟨⟨_, hkeys e (hp.subset he), hshare⟩, hw.shareDump_of_termOf (hw.data.graph.value ha hx (hp.subset he))
    (hw.data.graph.value hb hy (hp'.subset he')) hv hv'⟩

end Builtins

end Introspect.Perl
