import Introspect.Proofs.Registry.Find
import Introspect.Proofs.Results
import Introspect.Proofs.World.Parts
import Introspect.Perl.Encode
/-!
Writing without the world: the terms of a graph of references whose plain values have settled terms.
What is written under one limit of nesting is written under every larger one.
-/
namespace Introspect.Perl

open World

/-- References whose plain values settle, to a term or to a failure, and whose objects are read. -/
structure Graph (w : World) (S : List Ref) : Prop extends w.Closed S where
  values : ∀ r ∈ S, ∀ a, w.body r = .atom a → ∃ x, w.Settles (atomTerm r a) x
  numbers : ∀ r ∈ S, ∀ n, w.body r = .atom (.number n) → ∃ x, w.Settles (Dispatch.ask.textOf r) x
  storage : ∀ r ∈ S, w.isObject r = true → ∃ pairs, w.Settles (fields r) (.ok pairs)

/-! ## The writer -/

section Children

variable (w : World) (recur : Active → Path → Ref → Except Fault Term)

def writtenText (r : Ref) : Except Fault (List Char) := do return (← recur [] .root r).chars 0 0

noncomputable def writtenKey (k : Ref) : Except Fault (List Char) :=
  match w.atom? k with
  | some (.text s) => .ok (quote s.toList)
  | some (.bytes b) => .ok (quote (Text.latin1 b))
  | some (.bool b) => .ok [if b then '1' else '0']
  | some (.number _) => String.toList <$> w.answer (Dispatch.ask.textOf k)
  | _ => writtenText recur k

def writtenItems (active : Active) (p : Path) : Nat → List Ref → Except Fault (List Term)
  | _, [] => .ok []
  | index, r :: rest => do
    let t ← recur active (.item p index) r
    return t :: (← writtenItems active p (index + 1) rest)

def writtenEntries (active : Active) (p : Path) :
    List (List Char × Ref) → Except Fault (List (List Char × Term))
  | [] => .ok []
  | (key, r) :: rest => do
    let t ← recur active (.entry p key) r
    return (key, t) :: (← writtenEntries active p rest)

def writtenArray (active : Active) (p : Path) (items : List Ref) : Except Fault Term := do
  return .array (← writtenItems recur active p 0 items)

def writtenHash (active : Active) (p : Path) (pairs : List (List Char × Ref)) : Except Fault Term := do
  return .hash (← writtenEntries recur active p (byText pairs))

noncomputable def writtenMapping (active : Active) (p : Path) (entries : List (Ref × Ref)) :
    Except Fault Term := do
  writtenHash recur active p (← entries.mapM fun e => do return (← writtenKey w recur e.1, e.2))

def writtenMembers (active : Active) (p : Path) (items : List Ref) : Except Fault Term := do
  let pairs ← items.mapM fun r => do return (← writtenText recur r, r)
  writtenArray recur active p ((byText pairs).map (·.2))

def writtenFields (active : Active) (p : Path) (fields : List (String × Ref)) : Except Fault Term :=
  writtenHash recur active p (fields.map fun e => (quote e.1.toList, e.2))

noncomputable def writtenContent (active : Active) (p : Path) (r : Ref) : Except Fault Term :=
  match w.body r with
  | .mapping entries => writtenMapping w recur active p entries
  | .members items => writtenMembers recur active p items
  | _ =>
    match w.items? r with
    | some items => writtenArray recur active p items
    | none => writtenFields recur active p (w.storage r)

/-- The term with its class unless it is an ordinary container. -/
def typed (r : Ref) (t : Term) : Term :=
  if unblessed.contains (w.classOf r) then t else .blessed t (Registry.typeName w r).toList

noncomputable def writeStep (active : Active) (p : Path) (r : Ref) : Except Fault Term :=
  match w.body r with
  | .atom a => w.answer (atomTerm r a)
  | .cls c => .ok (.quoted (w.info c).fullName.toList)
  | .routine _ | .bound .. | .partialCall _ | .methodWrapper => .ok .code
  | body =>
    match active.lookup r, body with
    | some q, _ => .ok (.path q)
    | none, .box value _ => .reference <$> recur ((r, p) :: active) (.target p) value
    | none, _ => typed w r <$> writtenContent w recur ((r, p) :: active) p r

end Children

noncomputable def write (w : World) : Nat → Active → Path → Ref → Except Fault Term
  | 0, _, _, _ => .error .nesting
  | depth + 1, active, p, r => writeStep w (write w depth) active p r

/-! ## Worlds that answer for the graph -/

/-- A world in which everything that writing the graph asks for has settled. -/
structure Ready (w : World) (S : List Ref) (b : World) : Prop where
  grows : w.Grows b
  values : ∀ r ∈ S, ∀ a, w.body r = .atom a → b.Steady (atomTerm r a) (w.answer (atomTerm r a))
  numbers : ∀ r ∈ S, ∀ n, w.body r = .atom (.number n) →
    b.Steady (Dispatch.ask.textOf r) (w.answer (Dispatch.ask.textOf r))
  storage : ∀ r ∈ S, w.isObject r = true → b.Steady (fields r) (.ok (w.storage r))

variable {w : World} {S : List Ref} {b : World}

theorem Ready.mono {v : World} (hb : Ready w S b) (hv : b.Leads v) : Ready w S v where
  grows := hb.grows.trans hv.grows
  values r hr a ha := (hb.values r hr a ha).mono hv
  numbers r hr n hn := (hb.numbers r hr n hn).mono hv
  storage r hr ho := (hb.storage r hr ho).mono hv

theorem eventually_atoms {P : Ref → Atom → Nat → Prop}
    (h : ∀ r ∈ S, ∀ a, w.body r = .atom a → ∀ᶠ n in Filter.atTop, P r a n) :
    ∀ᶠ n in Filter.atTop, ∀ r ∈ S, ∀ a, w.body r = .atom a → P r a n := by
  refine eventually_forall_mem fun r hr => ?_
  cases hb : w.body r with
  | atom a => exact (h r hr a hb).mono fun n hn a' ha => by cases ha; exact hn
  | _ => exact .of_forall fun n a' ha => by cases ha

theorem Graph.eventually_ready (hG : Graph w S) : ∀ᶠ n in Filter.atTop, Ready w S (w.limited n) := by
  have hvalues : ∀ᶠ n in Filter.atTop, ∀ r ∈ S, ∀ a, w.body r = .atom a →
      (w.limited n).Steady (atomTerm r a) (w.answer (atomTerm r a)) :=
    eventually_atoms fun r hr a ha => settles_answer (hG.values r hr a ha)
  have hnumbers : ∀ᶠ n in Filter.atTop, ∀ r ∈ S, ∀ a, w.body r = .atom a → ∀ k, a = .number k →
      (w.limited n).Steady (Dispatch.ask.textOf r) (w.answer (Dispatch.ask.textOf r)) :=
    eventually_atoms fun r hr a ha => by
      cases a with
      | number k =>
          have hsettles : w.Settles (Dispatch.ask.textOf r) _ := settles_answer (hG.numbers r hr k ha)
          exact hsettles.mono fun n hn _ _ => hn
      | _ => exact .of_forall fun n k hk => by cases hk
  have hstorage : ∀ᶠ n in Filter.atTop, ∀ r ∈ S, w.isObject r = true →
      (w.limited n).Steady (fields r) (.ok (w.storage r)) :=
    eventually_forall_mem fun r hr => Filter.eventually_imp_distrib_left.mpr fun ho => by
      obtain ⟨pairs, hp⟩ := hG.storage r hr ho
      rw [storage_eq hp]
      exact hp
  filter_upwards [hvalues, hnumbers, hstorage] with n h₁ h₂ h₃
  exact ⟨w.grows_limited n, h₁, fun r hr k hk => h₂ r hr _ hk k rfl, h₃⟩

/-! ## Writing on a world does as the writer does -/

def isLeaf (w : World) (r : Ref) : Bool :=
  match w.body r with
  | .atom _ | .cls _ | .routine _ | .bound .. | .partialCall _ | .methodWrapper => true
  | _ => false

section Cases

variable {recur' : Active → Path → Ref → Except Fault Term} {r : Ref} {active : Active} {p q : Path}

theorem writeStep_again (hleaf : isLeaf w r = false) (hl : active.lookup r = some q) :
    writeStep w recur' active p r = .ok (.path q) := by
  unfold isLeaf at hleaf
  unfold writeStep
  cases hb : w.body r <;> simp_all

theorem writeStep_box {c : Ref} {t : Bool} (hb : w.body r = .box c t) (hl : active.lookup r = none) :
    writeStep w recur' active p r = Term.reference <$> recur' ((r, p) :: active) (.target p) c := by
  simp only [writeStep, hb, hl]

theorem writeStep_content (hleaf : isLeaf w r = false) (hbox : ∀ c t, w.body r ≠ .box c t)
    (hl : active.lookup r = none) : writeStep w recur' active p r =
      typed w r <$> writtenContent w recur' ((r, p) :: active) p r := by
  unfold isLeaf at hleaf
  unfold writeStep
  simp only [hl]
  clear hl
  cases hb : w.body r <;> simp_all

theorem writeStep_mapping {entries : List (Ref × Ref)} (hb : w.body r = .mapping entries)
    (hl : active.lookup r = none) : writeStep w recur' active p r =
      typed w r <$> writtenMapping w recur' ((r, p) :: active) p entries := by
  simp only [writeStep, writtenContent, hb, hl]

theorem writeStep_members {items : List Ref} (hb : w.body r = .members items)
    (hl : active.lookup r = none) : writeStep w recur' active p r =
      typed w r <$> writtenMembers recur' ((r, p) :: active) p items := by
  simp only [writeStep, writtenContent, hb, hl]

theorem writeStep_items {items : List Ref} (hi : w.items? r = some items) (hl : active.lookup r = none) :
    writeStep w recur' active p r = typed w r <$> writtenArray recur' ((r, p) :: active) p items := by
  have hi' := hi
  unfold items? at hi'
  unfold writeStep writtenContent
  simp only [hl, hi]
  cases hb : w.body r <;> simp_all

theorem writeStep_fields (ho : w.isObject r = true) (hl : active.lookup r = none) :
    writeStep w recur' active p r =
      typed w r <$> writtenFields recur' ((r, p) :: active) p (w.storage r) := by
  have ho' := ho
  unfold isObject at ho'
  unfold writeStep writtenContent
  simp only [hl, items?_of_isObject ho]
  cases hb : w.body r <;> simp_all

inductive Shape (w : World) (r : Ref) : Prop where
  | leaf : isLeaf w r = true → Shape w r
  | box {c t} : w.body r = .box c t → Shape w r
  | mapping {entries} : w.body r = .mapping entries → Shape w r
  | members {items} : w.body r = .members items → Shape w r
  | items {items} : w.items? r = some items → Shape w r
  | fields : w.isObject r = true → Shape w r

theorem shape (w : World) (r : Ref) : Shape w r := by
  cases hb : w.body r with
  | box c t => exact .box hb
  | mapping entries => exact .mapping hb
  | members items => exact .members hb
  | sequence items => exact .items (by rw [items?, hb])
  | range start stop step => exact .items (by rw [items?, hb])
  | byteArray b => exact .items (by rw [items?, hb])
  | error message cause => exact .fields (by simp only [isObject, hb])
  | descriptor id => exact .fields (by simp only [isObject, hb])
  | stream => exact .fields (by simp only [isObject, hb])
  | nothing => exact .fields (by simp only [isObject, hb])
  | _ => exact .leaf (by simp only [isLeaf, hb])

theorem isObject_of_others (hleaf : isLeaf w r = false) (hbox : ∀ c t, w.body r ≠ .box c t)
    (hi : w.items? r = none) (hmap : ∀ entries, w.body r ≠ .mapping entries)
    (hset : ∀ items, w.body r ≠ .members items) : w.isObject r = true := by
  unfold items? at hi
  unfold isLeaf at hleaf
  unfold isObject
  cases hb : w.body r <;> simp_all

theorem writtenContent_of_other (hmap : ∀ entries, w.body r ≠ .mapping entries)
    (hset : ∀ items, w.body r ≠ .members items) :
    writtenContent w recur' active p r = match w.items? r with
      | some items => writtenArray recur' active p items
      | none => writtenFields recur' active p (w.storage r) := by
  unfold writtenContent
  cases hbody : w.body r with
  | mapping entries => exact absurd hbody (hmap entries)
  | members items => exact absurd hbody (hset items)
  | _ => rfl

end Cases

section Simulation

variable {recur : Active → Path → Ref → Act Term} {recur' : Active → Path → Ref → Except Fault Term}
  {r : Ref}

theorem steady_compact (h : ∀ active p, ∀ r ∈ S, b.Steady (recur active p r) (recur' active p r))
    (hr : r ∈ S) : b.Steady (compact recur r) (writtenText recur' r) :=
  (h [] .root r hr).bind fun t _ => .pure b (t.chars 0 0)

theorem steady_keyLiteral (hG : Graph w S) (hb : Ready w S b)
    (h : ∀ active p, ∀ r ∈ S, b.Steady (recur active p r) (recur' active p r)) (hr : r ∈ S) :
    b.Steady (keyLiteral recur r) (writtenKey w recur' r) := by
  refine .get fun v hv => ?_
  rw [(hb.grows.trans hv.grows).atom? (hG.has r hr)]
  unfold writtenKey
  cases ha : w.atom? r with
  | none => exact (steady_compact h hr).mono hv
  | some a =>
      cases a with
      | none => exact (steady_compact h hr).mono hv
      | bool b => exact .pure v _
      | text s => exact .pure v _
      | bytes content => exact .pure v _
      | number n =>
          have hbody : w.body r = .atom (.number n) := body_of_atom? ha
          rw [map_eq_pure_bind]
          exact ((hb.numbers r hr n hbody).mono hv).bind fun s _ => .pure v s.toList

theorem steady_itemTerms (h : ∀ active p, ∀ r ∈ S, b.Steady (recur active p r) (recur' active p r))
    (active : Active) (p : Path) (index : Nat) (items : List Ref) (hi : ∀ r ∈ items, r ∈ S) :
    b.Steady (itemTerms recur active p index items) (writtenItems recur' active p index items) := by
  induction items generalizing index with
  | nil => exact .pure b []
  | cons r rest ih =>
      have ih := ih (index + 1) fun r hr => hi r (List.mem_cons_of_mem _ hr)
      exact (h active (.item p index) r (hi r List.mem_cons_self)).bind fun t _ =>
        ih.bind fun found _ => .pure b (t :: found)

theorem steady_entryTerms (h : ∀ active p, ∀ r ∈ S, b.Steady (recur active p r) (recur' active p r))
    (active : Active) (p : Path) (pairs : List (List Char × Ref)) (hp : ∀ e ∈ pairs, e.2 ∈ S) :
    b.Steady (entryTerms recur active p pairs) (writtenEntries recur' active p pairs) := by
  induction pairs with
  | nil => exact .pure b []
  | cons e rest ih =>
      have ih := ih fun e he => hp e (List.mem_cons_of_mem _ he)
      exact (h active (.entry p e.1) e.2 (hp e List.mem_cons_self)).bind fun t _ =>
        ih.bind fun found _ => .pure b ((e.1, t) :: found)

theorem mem_byText {pairs : List (List Char × Ref)} {e : List Char × Ref} : e ∈ byText pairs ↔ e ∈ pairs :=
  (List.mergeSort_perm pairs _).mem_iff

theorem steady_arrayTerm (h : ∀ active p, ∀ r ∈ S, b.Steady (recur active p r) (recur' active p r))
    (active : Active) (p : Path) (items : List Ref) (hi : ∀ r ∈ items, r ∈ S) :
    b.Steady (arrayTerm recur active p items) (writtenArray recur' active p items) :=
  (steady_itemTerms h active p 0 items hi).bind fun ts _ => .pure b (Term.array ts)

theorem steady_hashTerm (h : ∀ active p, ∀ r ∈ S, b.Steady (recur active p r) (recur' active p r))
    (active : Active) (p : Path) (pairs : List (List Char × Ref)) (hp : ∀ e ∈ pairs, e.2 ∈ S) :
    b.Steady (hashTerm recur active p pairs) (writtenHash recur' active p pairs) :=
  (steady_entryTerms h active p (byText pairs) fun e he => hp e (mem_byText.mp he)).bind fun ts _ =>
    .pure b (Term.hash ts)

theorem steady_mappingTerm (hG : Graph w S) (hb : Ready w S b)
    (h : ∀ active p, ∀ r ∈ S, b.Steady (recur active p r) (recur' active p r))
    (active : Active) (p : Path) {entries : List (Ref × Ref)} (he : ∀ e ∈ entries, e.1 ∈ S ∧ e.2 ∈ S) :
    b.Steady (do hashTerm recur active p (← entries.mapM fun (k, v) => do
        return (← keyLiteral recur k, v)))
      (writtenMapping w recur' active p entries) := by
  refine (Steady.mapM fun e hm => ?_).bind fun pairs hpairs => ?_
  · exact (steady_keyLiteral hG hb h (he e hm).1).bind fun k _ => .pure b (k, e.2)
  · exact steady_hashTerm h active p pairs (forall_kept hpairs fun e hm => (he e hm).2)

theorem steady_membersTerm (h : ∀ active p, ∀ r ∈ S, b.Steady (recur active p r) (recur' active p r))
    (active : Active) (p : Path) {items : List Ref} (hi : ∀ r ∈ items, r ∈ S) :
    b.Steady (membersTerm recur active p items) (writtenMembers recur' active p items) := by
  refine (Steady.mapM fun r hm => ?_).bind fun pairs hpairs => ?_
  · exact (steady_compact h (hi r hm)).bind fun k _ => .pure b (k, r)
  · refine steady_arrayTerm h active p _ fun r hm => ?_
    obtain ⟨e, he, rfl⟩ := List.mem_map.mp hm
    exact forall_kept hpairs hi e (mem_byText.mp he)

theorem steady_otherTerm (hG : Graph w S) (hb : Ready w S b)
    (h : ∀ active p, ∀ r ∈ S, b.Steady (recur active p r) (recur' active p r))
    (active : Active) (p : Path) (hr : r ∈ S) (ho : w.items? r = none → w.isObject r = true) :
    b.Steady (match w.items? r with
        | some items => arrayTerm recur active p items
        | none => do hashTerm recur active p ((← fields r).map fun (name, v) => (quote name.toList, v)))
      (match w.items? r with
        | some items => writtenArray recur' active p items
        | none => writtenFields recur' active p (w.storage r)) := by
  cases hi : w.items? r with
  | some items =>
      exact steady_arrayTerm h active p items fun c hc => hG.parts r hr c (.inl (.item hi hc))
  | none =>
      refine (hb.storage r hr (ho hi)).bind
        (g := fun _ => writtenFields recur' active p (w.storage r)) fun pairs hpairs => ?_
      cases hpairs
      refine steady_hashTerm h active p _ fun e he => ?_
      obtain ⟨f, hf, rfl⟩ := List.mem_map.mp he
      exact hG.parts r hr f.2 (.inl (.field (ho hi) (n := f.1) hf))

theorem steady_contentTerm (hG : Graph w S) (hb : Ready w S b)
    (h : ∀ active p, ∀ r ∈ S, b.Steady (recur active p r) (recur' active p r))
    (active : Active) (p : Path) (hr : r ∈ S)
    (ho : w.items? r = none → (∀ entries, w.body r ≠ .mapping entries) →
      (∀ items, w.body r ≠ .members items) → w.isObject r = true) :
    b.Steady (contentTerm recur active p r) (writtenContent w recur' active p r) := by
  refine .get fun v hv => ?_
  have hready := hb.mono hv
  have hv' := fun active p r hr => (h active p r hr).mono hv
  rw [hready.grows.body (hG.has r hr), hready.grows.items? (hG.has r hr)]
  split
  · rename_i entries hbody
    rw [writtenContent, hbody]
    exact steady_mappingTerm hG hready hv' active p fun e he =>
      ⟨hG.key hr hbody he, hG.value hr hbody he⟩
  · rename_i items hbody
    rw [writtenContent, hbody]
    exact steady_membersTerm hv' active p fun c hc => hG.member hr hbody hc
  · rename_i hmap hset
    rw [writtenContent_of_other hmap hset]
    exact steady_otherTerm hG hready hv' active p hr fun hi => ho hi hmap hset

theorem steady_referenceTerm (hG : Graph w S) (hb : Ready w S b)
    (h : ∀ active p, ∀ r ∈ S, b.Steady (recur active p r) (recur' active p r))
    (active : Active) (p : Path) (hr : r ∈ S)
    (ho : w.items? r = none → (∀ entries, w.body r ≠ .mapping entries) →
      (∀ items, w.body r ≠ .members items) → w.isObject r = true) :
    b.Steady (referenceTerm recur active p r) (typed w r <$> writtenContent w recur' active p r) := by
  rw [map_eq_pure_bind]
  refine (steady_contentTerm hG hb h active p hr ho).bind fun t _ => .get fun v hv => ?_
  have hready := hb.mono hv
  have hhas := hready.grows.has (hG.has r hr)
  rw [hready.grows.classOf (hG.has r hr), typed]
  split
  · exact .pure v t
  · rw [← Registry.typeName_grows hG.sound (hG.has r hr) hready.grows]
    exact (Registry.steady_qnameOf (hready.grows.sound hG.sound) hhas).bind
      (g := fun name => .ok (Term.blessed t name.toList)) fun name _ =>
        .pure v (Term.blessed t name.toList)

theorem steady_term (hG : Graph w S) (hb : Ready w S b)
    (h : ∀ active p, ∀ r ∈ S, b.Steady (recur active p r) (recur' active p r))
    (active : Active) (p : Path) (hr : r ∈ S) :
    b.Steady (term recur active p r) (writeStep w recur' active p r) := by
  refine .get fun v hv => ?_
  have hready := hb.mono hv
  have hv' := fun active p r hr => (h active p r hr).mono hv
  rw [hready.grows.body (hG.has r hr)]
  split
  · rename_i a hbody
    rw [writeStep, hbody]
    exact hready.values r hr a hbody
  · rename_i c hbody
    rw [writeStep, hbody, hready.grows.info]
    exact .pure v _
  · rename_i hbody; rw [writeStep, hbody]; exact .pure v _
  · rename_i hbody; rw [writeStep, hbody]; exact .pure v _
  · rename_i hbody; rw [writeStep, hbody]; exact .pure v _
  · rename_i hbody; rw [writeStep, hbody]; exact .pure v _
  · rename_i hatom hcls hroutine hbound hpartial hwrapper
    have hleaf : isLeaf w r = false := by
      unfold isLeaf
      cases hb : w.body r <;> simp_all
    cases hl : active.lookup r with
    | some q =>
        rw [writeStep_again hleaf hl]
        exact .pure v _
    | none =>
        split
        · cases ‹none = some _›
        · rename_i hbody
          rw [writeStep_box hbody hl, map_eq_pure_bind]
          exact (hv' _ (.target p) _ (hG.parts r hr _ (.inl (.content hbody)))).bind fun t _ =>
            .pure v (Term.reference t)
        · rename_i hbox
          rw [writeStep_content hleaf hbox hl]
          exact steady_referenceTerm hG hready hv' _ p hr (isObject_of_others hleaf hbox)

theorem steady_termWithin (hG : Graph w S) (hb : Ready w S b) (depth : Nat) (active : Active) (p : Path)
    (hr : r ∈ S) : b.Steady (termWithin depth active p r) (write w depth active p r) := by
  induction depth generalizing active p r with
  | zero => exact .throw b .nesting
  | succ depth ih => exact steady_term hG hb (fun active p r hr => ih active p hr) active p hr

theorem steady_encode {n : Nat} (hG : Graph w S) (hb : Ready w S (w.limited n)) (hr : r ∈ S) (indent : Int) :
    (w.limited n).Steady (encode r indent) ((·.render indent) <$> write w n [] .root r) := by
  refine .get fun v hv => ?_
  rw [hv.nesting, map_eq_pure_bind]
  exact ((steady_termWithin hG hb n [] .root hr).mono hv).bind fun t _ => .pure v (t.render indent)

end Simulation

/-! ## More depth writes the same -/

/-- What the first computation answers, the second does. -/
def Extends {α : Type} (x y : Except Fault α) : Prop := ∀ a, x = .ok a → y = .ok a

namespace Extends

variable {α β : Type} {x y : Except Fault α}

theorem refl (x : Except Fault α) : Extends x x := fun _ h => h

theorem bind {f g : α → Except Fault β} (h : Extends x y) (hf : ∀ a, x = .ok a → Extends (f a) (g a)) :
    Extends (x >>= f) (y >>= g) := by
  intro b hb
  obtain ⟨a, hx, hb⟩ := bind_ok_iff.mp hb
  exact bind_ok_iff.mpr ⟨a, h a hx, hf a hx b hb⟩

theorem map {f : α → β} (h : Extends x y) : Extends (f <$> x) (f <$> y) := by
  rw [map_eq_pure_bind, map_eq_pure_bind]
  exact h.bind fun _ _ => .refl _

theorem mapM {l : List α} {f g : α → Except Fault β} (h : ∀ a ∈ l, Extends (f a) (g a)) :
    Extends (l.mapM f) (l.mapM g) := by
  induction l with
  | nil => exact .refl _
  | cons a rest ih =>
      rw [List.mapM_cons, List.mapM_cons]
      exact (h a List.mem_cons_self).bind fun _ _ =>
        (ih fun a ha => h a (List.mem_cons_of_mem _ ha)).bind fun _ _ => .refl _

end Extends

section Depth

variable {f g : Active → Path → Ref → Except Fault Term} {active : Active} {p : Path} {v : World}

theorem extends_writtenText {r : Ref} (h : Extends (f [] .root r) (g [] .root r)) :
    Extends (writtenText f r) (writtenText g r) :=
  h.bind fun _ _ => .refl _

theorem extends_writtenKey {r : Ref} (h : Extends (f [] .root r) (g [] .root r)) :
    Extends (writtenKey w f r) (writtenKey w g r) := by
  unfold writtenKey
  split <;> first | exact .refl _ | exact extends_writtenText h

theorem extends_writtenItems {items : List Ref} (h : ∀ c ∈ items, ∀ q, Extends (f active q c) (g active q c))
    (index : Nat) : Extends (writtenItems f active p index items) (writtenItems g active p index items) := by
  induction items generalizing index with
  | nil => exact .refl _
  | cons c rest ih =>
      exact (h c List.mem_cons_self _).bind fun _ _ =>
        (ih (fun c hc => h c (List.mem_cons_of_mem _ hc)) (index + 1)).bind fun _ _ => .refl _

theorem extends_writtenArray {items : List Ref} (h : ∀ c ∈ items, ∀ q, Extends (f active q c) (g active q c)) :
    Extends (writtenArray f active p items) (writtenArray g active p items) :=
  (extends_writtenItems h 0).bind fun _ _ => .refl _

theorem extends_writtenEntries {pairs : List (List Char × Ref)}
    (h : ∀ y ∈ pairs, ∀ q, Extends (f active q y.2) (g active q y.2)) :
    Extends (writtenEntries f active p pairs) (writtenEntries g active p pairs) := by
  induction pairs with
  | nil => exact .refl _
  | cons y rest ih =>
      exact (h y List.mem_cons_self _).bind fun _ _ =>
        (ih fun y hy => h y (List.mem_cons_of_mem _ hy)).bind fun _ _ => .refl _

theorem extends_writtenHash {pairs : List (List Char × Ref)}
    (h : ∀ y ∈ pairs, ∀ q, Extends (f active q y.2) (g active q y.2)) :
    Extends (writtenHash f active p pairs) (writtenHash g active p pairs) :=
  (extends_writtenEntries fun y hy => h y (mem_byText.mp hy)).bind fun _ _ => .refl _

theorem extends_writtenMapping {entries : List (Ref × Ref)}
    (hkeys : ∀ e ∈ entries, Extends (writtenKey w f e.1) (writtenKey v g e.1))
    (hvalues : ∀ e ∈ entries, ∀ q, Extends (f active q e.2) (g active q e.2)) :
    Extends (writtenMapping w f active p entries) (writtenMapping v g active p entries) := by
  refine (Extends.mapM fun e he => (hkeys e he).bind fun _ _ => .refl _).bind fun pairs hpairs => ?_
  exact extends_writtenHash (forall_kept (P := fun c => ∀ q, Extends (f active q c) (g active q c)) hpairs hvalues)

theorem extends_writtenFields {fields : List (String × Ref)}
    (h : ∀ e ∈ fields, ∀ q, Extends (f active q e.2) (g active q e.2)) :
    Extends (writtenFields f active p fields) (writtenFields g active p fields) := by
  refine extends_writtenHash fun y hy => ?_
  obtain ⟨e, he, rfl⟩ := List.mem_map.mp hy
  exact h e he

theorem extends_writtenContent (h : ∀ active p r, Extends (f active p r) (g active p r))
    (active : Active) (p : Path) (r : Ref) :
    Extends (writtenContent w f active p r) (writtenContent w g active p r) := by
  unfold writtenContent writtenMembers
  split
  · exact extends_writtenMapping (fun e _ => extends_writtenKey (h [] .root e.1)) fun e _ q => h active q e.2
  · exact (Extends.mapM fun c _ => (extends_writtenText (h [] .root c)).bind fun _ _ => .refl _).bind fun pairs _ =>
      extends_writtenArray fun c _ q => h active q c
  · split
    · exact extends_writtenArray fun c _ q => h active q c
    · exact extends_writtenFields fun e _ q => h active q e.2

theorem extends_writeStep (h : ∀ active p r, Extends (f active p r) (g active p r))
    (active : Active) (p : Path) (r : Ref) :
    Extends (writeStep w f active p r) (writeStep w g active p r) := by
  unfold writeStep
  split
  · exact .refl _
  · exact .refl _
  · exact .refl _
  · exact .refl _
  · exact .refl _
  · exact .refl _
  · split
    · exact .refl _
    · exact (h _ _ _).map
    · exact (extends_writtenContent h _ p r).map

end Depth

theorem extends_write {n m : Nat} (hnm : n ≤ m) (active : Active) (p : Path) (r : Ref) :
    Extends (write w n active p r) (write w m active p r) := by
  induction n generalizing m active p r with
  | zero => intro t h; cases h
  | succ n ih =>
      cases m with
      | zero => cases hnm
      | succ m => exact extends_writeStep (fun active p r => ih (Nat.le_of_succ_le_succ hnm) active p r) active p r

/-- The encoder settles on a text exactly if some depth suffices to write the value. -/
theorem settles_encode_iff {r : Ref} (hG : Graph w S) (hr : r ∈ S) (indent : Int) (text : String) :
    w.Settles (encode r indent) (.ok text) ↔
      ∃ depth t, write w depth [] .root r = .ok t ∧ t.render indent = text := by
  constructor
  · intro h
    obtain ⟨n, hready, hsettled⟩ := (hG.eventually_ready.and h).exists
    exact ⟨n, map_ok_iff.mp ((steady_encode hG hready hr indent).unique hsettled)⟩
  · rintro ⟨depth, t, ht, rfl⟩
    filter_upwards [hG.eventually_ready, Filter.eventually_ge_atTop depth] with n hready hn
    have hsteady := steady_encode hG hready hr indent
    rw [extends_write hn [] .root r t ht] at hsteady
    exact hsteady

end Introspect.Perl
