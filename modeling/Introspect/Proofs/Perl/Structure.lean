import Introspect.Proofs.Perl.Backreferences
import Introspect.Proofs.Perl.Reordering
/-!
What compact texts tell. Values made of nothing, texts, short integers, lists, mappings, boxes and objects have
one compact text exactly if they have one structure.
-/
namespace Introspect.Perl

open World

/-! ## Structure -/

/-- Integers of at most nine digits. -/
def Short (i : Int) : Prop := i.natAbs < 1000000000

instance (i : Int) : Decidable (Short i) := inferInstanceAs (Decidable (i.natAbs < 1000000000))

/-- The kinds of values whose compact texts tell their structure. -/
inductive Structural (w : World) (r : Ref) : Prop where
  | nothing : w.body r = .atom .none → w.classOf r = .native .noneType → Structural w r
  | text {s : String} : w.body r = .atom (.text s) → w.classOf r = .native .str → Structural w r
  | integer {i : Int} : w.body r = .atom (Atom.int i) → w.classOf r = .native .int → Short i → Structural w r
  | list {items : List Ref} : w.body r = .sequence items → w.classOf r = .native .list → Structural w r
  | dict {entries : List (Ref × Ref)} : w.body r = .mapping entries → w.classOf r = .native .dict → Structural w r
  | box {c : Ref} {t : Bool} : w.body r = .box c t → w.classOf r = .native .scalar → Structural w r
  | object {index : Nat} : w.body r = .nothing → w.classOf r = .declared index → Structural w r

/-- Acyclic values of these kinds. The keys of mappings are texts, and the classes of objects have names of their own. -/
structure Structured (w : World) (S : List Ref) : Prop where
  graph : Graph w S
  acyclic : w.Acyclic S
  kinds : ∀ r ∈ S, Structural w r
  keys : TextKeys w S
  classes : ∀ a ∈ S, ∀ b ∈ S, w.isObject a = true → w.isObject b = true →
    Registry.typeName w a = Registry.typeName w b → w.classOf a = w.classOf b

/-! ## Short integers -/

theorem length_of_short {i : Int} (h : Short i) : (Nat.toDigits 10 i.natAbs).length ≤ bareDigits :=
  (Nat.length_toDigits_le_iff (by decide) (by decide)).mpr h

theorem digits_of_short {i : Int} (h : Short i) : ((toString i).toList.dropWhile (· = '-')).length ≤ bareDigits := by
  rw [Numeral.toList_int, Numeral.dropDash_signed]
  exact length_of_short h

theorem asText_short {i : Int} (h : Short i) : (Atom.number (.int i)).asText = .ok (toString i) := by
  have hlength : (toString i.natAbs).length ≤ bareDigits := by
    rw [← String.length_toList, Numeral.toList_nat]
    exact length_of_short h
  have hlimit : ¬ (toString i.natAbs).length > Numeral.digitLimit := by
    simp only [bareDigits] at hlength
    simp only [Numeral.digitLimit]
    omega
  have hwritable : Atom.isWritable (.int i) = true := by
    simp only [Atom.isWritable, Numeral.intText?, if_neg hlimit, Option.isSome]
  exact if_pos hwritable

theorem contentOf_short {i : Int} (h : Short i) : contentOf (Atom.int i) = .ok (.bare (toString i).toList) := by
  have hbare : integerTerm (toString i) = .bare (toString i).toList := if_pos (digits_of_short h)
  rw [← hbare, Atom.int, contentOf, asText_short h]
  rfl

/-! ## Lists of parts -/

section Parts

variable {α β γ : Type}

/-- What is written of pairs under literals. -/
def sortedPairs (lit : α → List Char) (g : Ref → γ) (l : List (α × Ref)) : List (List Char × γ) :=
  (byText (l.map fun e => (lit e.1, e.2))).map fun y => (y.1, g y.2)

theorem byText_map (f : α → List Char × Ref) (l : List α) :
    ∃ found : List α, found.Perm l ∧ byText (l.map f) = found.map f := by
  have hmap := List.map_mergeSort (r := fun a b => decide (¬ (f b).1 < (f a).1))
    (s := fun a b => decide (¬ b.1 < a.1)) (f := f) (l := l) fun _ _ _ _ => rfl
  exact ⟨_, List.mergeSort_perm _ _, hmap.symm⟩

end Parts

/-! ## Terms of structured values -/

variable {w : World} {S : List Ref} {r a b : Ref} {t : Term} {g : Ref → Except Fault Term} {h : Ref → Term}

theorem writtenArray_ok {active : Active} {p : Path} {items : List Ref} (hg : ∀ c ∈ items, g c = .ok (h c)) :
    writtenArray (fun _ _ => g) active p items = .ok (.array (items.map h)) := by
  rw [writtenArray, writtenItems_const, mapM_ok_map hg]
  rfl

theorem writtenHash_ok {active : Active} {p : Path} {pairs : List (List Char × Ref)}
    (hg : ∀ y ∈ pairs, g y.2 = .ok (h y.2)) :
    writtenHash (fun _ _ => g) active p pairs = .ok (.hash ((byText pairs).map fun y => (y.1, h y.2))) := by
  have hentries : (byText pairs).mapM (fun y => do return (y.1, ← g y.2)) =
      .ok ((byText pairs).map fun y => (y.1, h y.2)) :=
    mapM_ok_map fun y hy => by rw [hg y (mem_byText.mp hy)]; rfl
  rw [writtenHash, writtenEntries_const, hentries]
  rfl

theorem typed_ordinary (hc : unblessed.contains (w.classOf r) = true) (t : Term) : typed w r t = t := if_pos hc

theorem typed_declared {index : Nat} (hc : w.classOf r = .declared index) (t : Term) :
    typed w r t = .blessed t (Registry.typeName w r).toList := by
  have hblessed : ¬ unblessed.contains (w.classOf r) = true := by
    rw [hc]
    simp [unblessed]
  exact if_neg hblessed

/-- The term of a value that is written. -/
noncomputable def dumped (w : World) (S : List Ref) (r : Ref) : Term :=
  match termOf w S r with
  | .ok t => t
  | .error _ => .undefined

namespace Structured

variable (hw : Structured w S)
include hw

theorem settles_atom (hr : r ∈ S) {x : Atom} (hx : w.body r = .atom x) : w.Settles (atomTerm r x) (contentOf x) := by
  have hdata : isData w r = true := by
    cases hw.kinds r hr with
    | integer hb hc => simp [isData, hb, Atom.int, hc, atomClass]
    | object hb => rw [hb] at hx; cases hx
    | nothing hb => simp [isData, hb, isObject]
    | text hb => simp [isData, hb, isObject]
    | list hb => simp [isData, hb, isObject]
    | dict hb => simp [isData, hb, isObject]
    | box hb => simp [isData, hb, isObject]
  exact settles_atomTerm hdata (hw.graph.has r hr) hx

theorem legible (hr : r ∈ S) : Legible w r := by
  refine ⟨fun x hx => ?_, fun entries hb e he n hn => ?_⟩
  · have hsettles := hw.settles_atom hr hx
    cases hw.kinds r hr with
    | nothing hb => rw [hb] at hx; cases hx; exact ⟨_, hsettles⟩
    | text hb => rw [hb] at hx; cases hx; exact ⟨_, hsettles⟩
    | integer hb _ hi =>
        rw [hb] at hx
        cases hx
        rw [contentOf_short hi] at hsettles
        exact ⟨_, hsettles⟩
    | list hb => rw [hb] at hx; cases hx
    | dict hb => rw [hb] at hx; cases hx
    | box hb => rw [hb] at hx; cases hx
    | object hb => rw [hb] at hx; cases hx
  · obtain ⟨s, hs⟩ := hw.keys.texts r hr entries hb e he
    rw [hs] at hn
    cases hn

theorem termOf_eq_dumped (hr : r ∈ S) : termOf w S r = .ok (dumped w S r) := by
  have hS := hw.graph.toClosed
  obtain ⟨t, ht⟩ := succeeds_termOf hS hw.acyclic hr fun y hy => hw.legible (hy.mem hS hr)
  simp only [dumped, ht]

theorem dumped_of_step (hr : r ∈ S) (h : writeStep w (fun _ _ c => termOf w S c) [] .root r = .ok t) :
    dumped w S r = t := by
  rw [← termOf_eq hw.graph.toClosed hw.acyclic hr, hw.termOf_eq_dumped hr] at h
  exact Except.ok.inj h

theorem dumped_atom (hr : r ∈ S) {x : Atom} (hx : w.body r = .atom x) (h : contentOf x = .ok t) : dumped w S r = t := by
  refine hw.dumped_of_step hr ?_
  rw [writeStep, hx]
  exact (hw.settles_atom hr hx).answer_eq.trans h

theorem dumped_box (hr : r ∈ S) {c : Ref} {marked : Bool} (hb : w.body r = .box c marked) :
    dumped w S r = .reference (dumped w S c) := by
  refine hw.dumped_of_step hr ?_
  rw [writeStep_box hb rfl, hw.termOf_eq_dumped (hw.graph.parts r hr c (.inl (.content hb)))]
  rfl

theorem dumped_list (hr : r ∈ S) {items : List Ref} (hb : w.body r = .sequence items) (hc : w.classOf r = .native .list) :
    dumped w S r = .array (items.map (dumped w S)) := by
  have hi : w.items? r = some items := by rw [items?, hb]
  have hitems : ∀ c ∈ items, termOf w S c = .ok (dumped w S c) := fun c hc =>
    hw.termOf_eq_dumped (hw.graph.parts r hr c (.inl (.item hi hc)))
  refine hw.dumped_of_step hr ?_
  rw [writeStep_items hi rfl, writtenArray_ok hitems]
  exact congrArg Except.ok (typed_ordinary (by rw [hc]; decide) _)

theorem dumped_dict (hr : r ∈ S) {entries : List (Ref × Ref)} (hb : w.body r = .mapping entries)
    (hc : w.classOf r = .native .dict) :
    dumped w S r = .hash (sortedPairs (literalText w) (dumped w S) entries) := by
  have hkeys : (entries.mapM fun e : Ref × Ref => do
      return (← writtenKey w (fun _ _ c => termOf w S c) e.1, e.2)) =
      .ok (entries.map fun e => (literalText w e.1, e.2)) :=
    mapM_ok_map fun e he => by
      obtain ⟨s, hs, hquote⟩ := hw.keys.literal_eq hw.graph hr hb he
      rw [writtenKey_text hs, hquote]
      rfl
  have hvalues : ∀ y ∈ entries.map fun e => (literalText w e.1, e.2), termOf w S y.2 = .ok (dumped w S y.2) := by
    intro y hy
    obtain ⟨e, he, rfl⟩ := List.mem_map.mp hy
    exact hw.termOf_eq_dumped (hw.graph.value hr hb he)
  refine hw.dumped_of_step hr ?_
  rw [writeStep_mapping hb rfl, writtenMapping, hkeys]
  simp only [Bind.bind, Except.bind, writtenHash_ok hvalues]
  exact congrArg Except.ok (typed_ordinary (by rw [hc]; decide) _)

theorem dumped_object (hr : r ∈ S) {index : Nat} (hb : w.body r = .nothing) (hc : w.classOf r = .declared index) :
    dumped w S r = .blessed (.hash (sortedPairs (quote ·.toList) (dumped w S) (w.storage r)))
      (Registry.typeName w r).toList := by
  have ho : w.isObject r = true := by simp only [isObject, hb]
  have hvalues : ∀ y ∈ (w.storage r).map fun e => (quote e.1.toList, e.2), termOf w S y.2 = .ok (dumped w S y.2) := by
    intro y hy
    obtain ⟨e, he, rfl⟩ := List.mem_map.mp hy
    exact hw.termOf_eq_dumped (hw.graph.parts r hr e.2 (.inl (.field (n := e.1) ho he)))
  refine hw.dumped_of_step hr ?_
  rw [writeStep_fields ho rfl, writtenFields, writtenHash_ok hvalues]
  exact congrArg Except.ok (typed_declared hc _)

end Structured

/-- The term of a structured value, by what it is made from. -/
inductive Shown (w : World) (S : List Ref) (r : Ref) : Term → Prop where
  | nothing : w.body r = .atom .none → w.classOf r = .native .noneType → Shown w S r .undefined
  | text {s cs} : w.body r = .atom (.text s) → w.classOf r = .native .str → cs = s.toList → Shown w S r (.quoted cs)
  | integer {i cs} : w.body r = .atom (Atom.int i) → w.classOf r = .native .int → cs = (toString i).toList →
      Shown w S r (.bare cs)
  | list {items ts} : w.body r = .sequence items → w.classOf r = .native .list → ts = items.map (dumped w S) →
      Shown w S r (.array ts)
  | dict {entries ts} : w.body r = .mapping entries → w.classOf r = .native .dict →
      ts = sortedPairs (literalText w) (dumped w S) entries → Shown w S r (.hash ts)
  | box {c marked t} : w.body r = .box c marked → w.classOf r = .native .scalar → t = dumped w S c →
      Shown w S r (.reference t)
  | object {index ts name} : w.body r = .nothing → w.classOf r = .declared index →
      ts = sortedPairs (quote ·.toList) (dumped w S) (w.storage r) → name = (Registry.typeName w r).toList →
      Shown w S r (.blessed (.hash ts) name)

theorem Structured.shown (hw : Structured w S) (hr : r ∈ S) : Shown w S r (dumped w S r) := by
  cases hw.kinds r hr with
  | nothing hb hc => exact hw.dumped_atom hr hb rfl ▸ .nothing hb hc
  | text hb hc => exact hw.dumped_atom hr hb rfl ▸ .text hb hc rfl
  | integer hb hc hi => exact hw.dumped_atom hr hb (contentOf_short hi) ▸ .integer hb hc rfl
  | list hb hc => exact hw.dumped_list hr hb hc ▸ .list hb hc rfl
  | dict hb hc => exact hw.dumped_dict hr hb hc ▸ .dict hb hc rfl
  | box hb hc => exact hw.dumped_box hr hb ▸ .box hb hc rfl
  | object hb hc => exact hw.dumped_object hr hb hc ▸ .object hb hc rfl rfl

/-! ## One text for one structure -/

end Introspect.Perl
