import Introspect.Proofs.Perl.Leaves
import Introspect.Proofs.Perl.Restart
/-!
Terms at another place. Where nothing in progress is met again, a value is written at a place as it is written on
its own, with its paths continued from that place.
-/
namespace Introspect.Perl

open World

/-- A path continued from a base instead of the root. -/
def Path.graft (base : Path) : Path → Path
  | .root => base
  | .target p => .target (base.graft p)
  | .item p index => .item (base.graft p) index
  | .entry p key => .entry (base.graft p) key

namespace Term

mutual

/-- The term with its paths continued from a base. -/
def graft (base : Path) : Term → Term
  | .path p => .path (base.graft p)
  | .reference t => .reference (t.graft base)
  | .array items => .array (graftItems base items)
  | .hash entries => .hash (graftEntries base entries)
  | .blessed t cls => .blessed (t.graft base) cls
  | .undefined => .undefined
  | .bare text => .bare text
  | .quoted content => .quoted content
  | .code => .code

def graftItems (base : Path) : List Term → List Term
  | [] => []
  | t :: rest => t.graft base :: graftItems base rest

def graftEntries (base : Path) : List (List Char × Term) → List (List Char × Term)
  | [] => []
  | (key, t) :: rest => (key, t.graft base) :: graftEntries base rest

end

theorem Leaf.graft_eq {t : Term} (h : t.Leaf) (base : Path) : t.graft base = t := by
  cases h <;> rfl

end Term

/-- The active objects with their paths continued from a base. -/
def Active.graft (active : Active) (base : Path) : Active := active.map fun e => (e.1, base.graft e.2)

variable {w : World} {S : List Ref} {r c : Ref} {active active' inner outer : Active} {p base : Path}

theorem lookup_graft (inner : Active) : (inner.graft base).lookup r = (inner.lookup r).map base.graft := by
  induction inner with
  | nil => rfl
  | cons e rest ih =>
      rw [Active.graft, List.map_cons, List.lookup_cons, List.lookup_cons]
      split
      · rfl
      · exact ih

/-! ## One step -/

section Step

variable {f : Active → Path → Ref → Except Fault Term}

theorem writtenItems_graft {items : List Ref}
    (h : ∀ c ∈ items, ∀ q, f active' (base.graft q) c = Term.graft base <$> f active q c) (index : Nat) :
    writtenItems f active' (base.graft p) index items = Term.graftItems base <$> writtenItems f active p index items := by
  induction items generalizing index with
  | nil => rfl
  | cons c rest ih =>
      have hhead : f active' (.item (base.graft p) index) c = Term.graft base <$> f active (.item p index) c :=
        h c List.mem_cons_self (.item p index)
      rw [writtenItems, writtenItems, hhead, ih fun c hc => h c (List.mem_cons_of_mem _ hc)]
      cases f active (.item p index) c <;> cases writtenItems f active p (index + 1) rest <;> rfl

theorem writtenEntries_graft {pairs : List (List Char × Ref)}
    (h : ∀ y ∈ pairs, ∀ q, f active' (base.graft q) y.2 = Term.graft base <$> f active q y.2) :
    writtenEntries f active' (base.graft p) pairs = Term.graftEntries base <$> writtenEntries f active p pairs := by
  induction pairs with
  | nil => rfl
  | cons y rest ih =>
      have hhead : f active' (.entry (base.graft p) y.1) y.2 = Term.graft base <$> f active (.entry p y.1) y.2 :=
        h y List.mem_cons_self (.entry p y.1)
      rw [writtenEntries, writtenEntries, hhead, ih fun y hy => h y (List.mem_cons_of_mem _ hy)]
      cases f active (.entry p y.1) y.2 <;> cases writtenEntries f active p rest <;> rfl

theorem writtenArray_graft {items : List Ref}
    (h : ∀ c ∈ items, ∀ q, f active' (base.graft q) c = Term.graft base <$> f active q c) :
    writtenArray f active' (base.graft p) items = Term.graft base <$> writtenArray f active p items := by
  rw [writtenArray, writtenArray, writtenItems_graft h]
  cases writtenItems f active p 0 items <;> rfl

theorem writtenHash_graft {pairs : List (List Char × Ref)}
    (h : ∀ y ∈ pairs, ∀ q, f active' (base.graft q) y.2 = Term.graft base <$> f active q y.2) :
    writtenHash f active' (base.graft p) pairs = Term.graft base <$> writtenHash f active p pairs := by
  rw [writtenHash, writtenHash, writtenEntries_graft fun y hy => h y (mem_byText.mp hy)]
  cases writtenEntries f active p (byText pairs) <;> rfl

theorem writtenMapping_graft {entries : List (Ref × Ref)}
    (h : ∀ e ∈ entries, ∀ q, f active' (base.graft q) e.2 = Term.graft base <$> f active q e.2) :
    writtenMapping w f active' (base.graft p) entries = Term.graft base <$> writtenMapping w f active p entries := by
  rw [writtenMapping, writtenMapping]
  cases hpairs : entries.mapM fun e : Ref × Ref => do return (← writtenKey w f e.1, e.2) with
  | error fault => rfl
  | ok pairs =>
      exact writtenHash_graft (forall_kept
        (P := fun c => ∀ q, f active' (base.graft q) c = Term.graft base <$> f active q c) hpairs h)

theorem writtenMembers_graft {items : List Ref}
    (h : ∀ c ∈ items, ∀ q, f active' (base.graft q) c = Term.graft base <$> f active q c) :
    writtenMembers f active' (base.graft p) items = Term.graft base <$> writtenMembers f active p items := by
  rw [writtenMembers, writtenMembers]
  cases hpairs : items.mapM fun c => do return (← writtenText f c, c) with
  | error fault => rfl
  | ok pairs =>
      refine writtenArray_graft fun c hc => ?_
      obtain ⟨y, hy, rfl⟩ := List.mem_map.mp hc
      exact forall_kept (P := fun c => ∀ q, f active' (base.graft q) c = Term.graft base <$> f active q c) hpairs h y
        (mem_byText.mp hy)

theorem writtenFields_graft {fields : List (String × Ref)}
    (h : ∀ e ∈ fields, ∀ q, f active' (base.graft q) e.2 = Term.graft base <$> f active q e.2) :
    writtenFields f active' (base.graft p) fields = Term.graft base <$> writtenFields f active p fields := by
  refine writtenHash_graft fun y hy => ?_
  obtain ⟨e, he, rfl⟩ := List.mem_map.mp hy
  exact h e he

theorem typed_graft (t : Term) : typed w r (t.graft base) = (typed w r t).graft base := by
  unfold typed
  split <;> rfl

theorem map_typed_graft (x : Except Fault Term) :
    typed w r <$> (Term.graft base <$> x) = Term.graft base <$> (typed w r <$> x) := by
  cases x with
  | error fault => rfl
  | ok t => exact congrArg Except.ok (typed_graft t)

theorem writeStep_graft (hG : Graph w S) (hr : r ∈ S)
    (hlookup : active'.lookup r = (active.lookup r).map base.graft)
    (hparts : ∀ c, Writes w r c → ∀ q, f ((r, base.graft p) :: active') (base.graft q) c =
      Term.graft base <$> f ((r, p) :: active) q c) :
    writeStep w f active' (base.graft p) r = Term.graft base <$> writeStep w f active p r := by
  cases hleaf : isLeaf w r with
  | true =>
      rw [writeStep_leaf _ _ hleaf, writeStep_leaf _ _ hleaf]
      cases ht : leafTerm w r with
      | error fault => rfl
      | ok t => exact congrArg Except.ok ((hG.leaf_of_leafTerm hr ht).graft_eq base).symm
  | false =>
      cases hl : active.lookup r with
      | some q =>
          rw [hl] at hlookup
          rw [writeStep_again hleaf hl, writeStep_again hleaf hlookup]
          rfl
      | none =>
          rw [hl] at hlookup
          cases shape w r with
          | leaf hleaf' => rw [hleaf] at hleaf'; cases hleaf'
          | @box c _ hb =>
              have hcontent := hparts c (.inl (.content hb)) (.target p)
              rw [writeStep_box hb hl, writeStep_box hb hlookup]
              change Term.reference <$> f _ (base.graft (.target p)) c = _
              rw [hcontent]
              cases f ((r, p) :: active) (.target p) c <;> rfl
          | mapping hb =>
              rw [writeStep_mapping hb hl, writeStep_mapping hb hlookup,
                writtenMapping_graft fun e he => hparts e.2 (.inl (.value (k := e.1) hb he)), map_typed_graft]
          | members hb =>
              rw [writeStep_members hb hl, writeStep_members hb hlookup,
                writtenMembers_graft fun c hc => hparts c (.inr (.member hb hc)), map_typed_graft]
          | items hi =>
              rw [writeStep_items hi hl, writeStep_items hi hlookup,
                writtenArray_graft fun c hc => hparts c (.inl (.item hi hc)), map_typed_graft]
          | fields ho =>
              rw [writeStep_fields ho hl, writeStep_fields ho hlookup,
                writtenFields_graft fun e he => hparts e.2 (.inl (.field (n := e.1) ho he)), map_typed_graft]

end Step

/-! ## A whole value -/

theorem write_graft (hG : Graph w S) (depth : Nat) (hr : r ∈ S)
    (houter : ∀ y, outer.lookup y ≠ none → ¬ Reaches w r y) :
    write w depth (inner.graft base ++ outer) (base.graft p) r = Term.graft base <$> write w depth inner p r := by
  induction depth generalizing inner p r with
  | zero => rfl
  | succ depth ih =>
      have hlookup : (inner.graft base ++ outer).lookup r = (inner.lookup r).map base.graft := by
        have hnone : outer.lookup r = none := by
          by_contra hl
          exact houter r hl .refl
        rw [List.lookup_append, hnone, Option.or_none, lookup_graft]
      refine writeStep_graft hG hr hlookup fun c hc q => ?_
      have hbelow : write w depth (Active.graft ((r, p) :: inner) base ++ outer) (base.graft q) c =
          Term.graft base <$> write w depth ((r, p) :: inner) q c :=
        ih (hG.parts r hr c hc.part) fun y hy hcy => houter y hy (.head hc hcy)
      exact hbelow

/-- A value that meets nothing in progress is written at a place as on its own. -/
theorem write_at (hG : Graph w S) (depth : Nat) (hr : r ∈ S) (h : ∀ y, active.lookup y ≠ none → ¬ Reaches w r y)
    (base : Path) : write w depth active base r = Term.graft base <$> write w depth [] .root r := by
  have hgraft : write w depth (Active.graft [] base ++ active) (base.graft .root) r =
      Term.graft base <$> write w depth [] .root r := write_graft hG depth hr h
  exact hgraft

end Introspect.Perl
