import Introspect.Proofs.Data.Nodes
import Introspect.Proofs.Reflect.Keeping
/-!
What every run of the lowering ends with. Hooks may turn the world on the way; what holds of leaves and keys in
every world between the first and the last, and passes on to what contains them, holds of the data.
-/
namespace Introspect.Lower

open World Dispatch

/-- The run of a computation answers and leaves a world. -/
def Yields {α : Type} (m : Act α) (v : World) (a : α) (v' : World) : Prop := m v = .ok a v'

/-- What holds of the data and the keys that a run makes between two worlds. -/
structure Invariant (first last : World) (P : Data → Prop) (K : Data.Text → Prop) : Prop where
  leaf {v v' r a d} : first.Evolves v → v.body r = .atom a → atomData r a v = .ok d v' → v'.Evolves last → P d
  key {u v v' m pairs k x t} : first.Evolves u → u.body m = .mapping pairs → (k, x) ∈ pairs → u.Evolves v →
    key k v = .ok t v' → v'.Evolves last → K t
  field (name : String) : K (.plain name)
  name (s : String) : P (.text (.plain s))
  list {items} : (∀ d ∈ items, P d) → P (.list items)
  dict {entries} : (∀ e ∈ entries, K e.1 ∧ P e.2) → P (.dict (Data.ofEntries entries))

variable {first last u v v' : World} {P : Data → Prop} {K : Data.Text → Prop} {d : Data} {r m : Ref}
  {active : List Ref} {recur : List Ref → Ref → Act Data}

namespace Invariant

section Children

variable [hk : ∀ active r, Keeping (recur active r)] (h : Invariant first last P K)
  (hrecur : ∀ {active r v d v'}, first.Evolves v → recur active r v = .ok d v' → v'.Evolves last → P d)
include h hrecur

omit h in
theorem items {members : List Ref} {ds : List Data} (hv : first.Evolves v)
    (hrun : Lower.items recur active members v = .ok ds v') (hlast : v'.Evolves last) : ∀ d ∈ ds, P d := by
  induction members generalizing v ds with
  | nil =>
      cases hrun
      exact fun d hd => absurd hd List.not_mem_nil
  | cons r rest ih =>
      obtain ⟨d, u, hd, hrun⟩ := run_bind hrun
      obtain ⟨found, u', hfound, hrun⟩ := run_bind hrun
      cases hrun
      have hu := Keeping.evolves_of_ok hd
      exact List.forall_mem_cons.mpr ⟨hrecur hv hd ((Keeping.evolves_of_ok hfound).trans hlast), ih (hv.trans hu) hfound⟩

theorem entries {pairs rest : List (Ref × Ref)} {es : List (Data.Text × Data)} (hu : first.Evolves u)
    (hm : u.body m = .mapping pairs) (hsub : rest ⊆ pairs) (hv : u.Evolves v)
    (hrun : Lower.entries recur active rest v = .ok es v') (hlast : v'.Evolves last) : ∀ e ∈ es, K e.1 ∧ P e.2 := by
  induction rest generalizing v es with
  | nil =>
      cases hrun
      exact fun e he => absurd he List.not_mem_nil
  | cons p rest ih =>
      obtain ⟨k, x⟩ := p
      obtain ⟨hmem, hsub⟩ := List.cons_subset.mp hsub
      obtain ⟨t, v₁, ht, hrun⟩ := run_bind hrun
      obtain ⟨d, v₂, hd, hrun⟩ := run_bind hrun
      obtain ⟨found, v₃, hfound, hrun⟩ := run_bind hrun
      cases hrun
      have hv₁ := Keeping.evolves_of_ok ht
      have hv₂ := Keeping.evolves_of_ok hd
      have hv₃ := (Keeping.evolves_of_ok hfound).trans hlast
      refine List.forall_mem_cons.mpr ⟨⟨?_, ?_⟩, ih hsub ((hv.trans hv₁).trans hv₂) hfound⟩
      · exact h.key hu hm hmem hv ht (hv₂.trans hv₃)
      · exact hrecur ((hu.trans hv).trans hv₁) hd hv₃

theorem publicFields {pairs : List (String × Ref)} {es : List (Data.Text × Data)} (hv : first.Evolves v)
    (hrun : Lower.publicFields recur active pairs v = .ok es v') (hlast : v'.Evolves last) :
    ∀ e ∈ es, K e.1 ∧ P e.2 := by
  induction pairs generalizing v es with
  | nil =>
      cases hrun
      exact fun e he => absurd he List.not_mem_nil
  | cons p rest ih =>
      rw [Lower.publicFields] at hrun
      split at hrun
      · exact ih hv hrun
      · obtain ⟨d, u, hd, hrun⟩ := run_bind hrun
        obtain ⟨found, u', hfound, hrun⟩ := run_bind hrun
        cases hrun
        have hu := Keeping.evolves_of_ok hd
        exact List.forall_mem_cons.mpr ⟨⟨h.field _, hrecur hv hd ((Keeping.evolves_of_ok hfound).trans hlast)⟩,
          ih (hv.trans hu) hfound⟩

theorem content (hv : first.Evolves v) (hrun : Lower.content recur active r v = .ok d v') (hlast : v'.Evolves last) :
    P d := by
  rw [Lower.content, run_get] at hrun
  change Yields _ v d v' at hrun
  split at hrun
  · rename_i pairs hm
    obtain ⟨es, u, hes, hrun⟩ := run_bind hrun
    cases hrun
    exact h.dict (h.entries hrecur hv hm (List.Subset.refl _) .refl hes hlast)
  · obtain ⟨ds, u, hds, hrun⟩ := run_bind hrun
    obtain ⟨sorted, u', hsorted, hrun⟩ := run_bind hrun
    cases hrun
    cases hs : byDisplay ds with
    | error fault => rw [hs] at hsorted; cases hsorted
    | ok found =>
        rw [hs] at hsorted
        cases hsorted
        exact h.list fun d hd => items hrecur hv hds hlast d (mem_of_byDisplay hs hd)
  · split at hrun
    · obtain ⟨ds, u, hds, hrun⟩ := run_bind hrun
      cases hrun
      exact h.list (items hrecur hv hds hlast)
    · obtain ⟨pairs, u, hpairs, hrun⟩ := run_bind hrun
      obtain ⟨es, u', hes, hrun⟩ := run_bind hrun
      cases hrun
      exact h.dict (h.publicFields hrecur (hv.trans (Keeping.evolves_of_ok hpairs)) hes hlast)

theorem reference (hv : first.Evolves v) (hrun : Lower.reference recur active r v = .ok d v')
    (hlast : v'.Evolves last) : P d := by
  obtain ⟨hook, u, hhook, hrun⟩ := run_bind hrun
  have hu := hv.trans (Keeping.evolves_of_ok hhook)
  cases hook with
  | none => exact h.content hrecur hu hrun hlast
  | some hook =>
      change Yields (if isCallable u hook then _ else _) u d v' at hrun
      split at hrun
      · obtain ⟨answer, u', hanswer, hrun⟩ := run_bind hrun
        exact hrecur (hu.trans (Keeping.evolves_of_ok hanswer)) hrun hlast
      · exact h.content hrecur hu hrun hlast

theorem lower (hv : first.Evolves v) (hrun : Lower.lower recur active r v = .ok d v') (hlast : v'.Evolves last) :
    P d := by
  rw [Lower.lower, run_get] at hrun
  change Yields _ v d v' at hrun
  have hrefused {fault : String → Fault} : ¬ Yields (do throw (fault (← Registry.qnameOf r))) v d v' := fun hthrow => by
    obtain ⟨name, u, -, hthrow⟩ := run_bind hthrow
    cases hthrow
  split at hrun
  · rename_i hb
    exact h.leaf hv hb hrun hlast
  · exact hrecur hv hrun hlast
  · cases hrun
    exact h.name _
  · exact absurd hrun hrefused
  · exact absurd hrun hrefused
  · exact absurd hrun hrefused
  · exact absurd hrun hrefused
  · dsimp only at hrun
    split at hrun
    · obtain ⟨name, u, -, hthrow⟩ := run_bind hrun
      cases hthrow
    · exact h.reference hrecur hv hrun hlast

end Children

/-- What is kept from contents to containers holds of all that a run ends with. -/
theorem within (h : Invariant first last P K) {depth : Nat} (hv : first.Evolves v)
    (hrun : Lower.within depth active r v = .ok d v') (hlast : v'.Evolves last) : P d := by
  induction depth generalizing active r v d v' with
  | zero => cases hrun
  | succ depth ih => exact h.lower (fun hv hd hlast => ih hv hd hlast) hv hrun hlast

theorem encode (h : Invariant first last P K) (hrun : Lower.encode r first = .ok d last) : P d :=
  @Invariant.within _ _ _ _ _ _ _ _ _ h first.nesting .refl hrun .refl

end Invariant

theorem intOf_ok (h : intOf r v = .ok d v') : ∃ i, d = .int i := by
  obtain ⟨x, u, -, h⟩ := run_bind h
  rw [run_get] at h
  change Yields _ u d v' at h
  split at h <;> cases h
  exact ⟨_, rfl⟩

theorem doubleOf_ok (h : doubleOf r v = .ok d v') : ∃ x, d = .float x := by
  obtain ⟨x, u, -, h⟩ := run_bind h
  rw [run_get] at h
  change Yields _ u d v' at h
  split at h <;> cases h
  exact ⟨_, rfl⟩

/-- What a value without parts becomes has no parts. -/
theorem isLeaf_of_atomData {a : Atom} (h : atomData r a v = .ok d v') : d.isLeaf = true := by
  have htext (h : (do return Data.text (← converted r)) v = .ok d v') : d.isLeaf = true := by
    obtain ⟨t, u, -, h⟩ := run_bind h
    cases h
    rfl
  cases a with
  | number n =>
      cases n with
      | int i => obtain ⟨i, rfl⟩ := intOf_ok h; rfl
      | float x | fraction num den => obtain ⟨x, rfl⟩ := doubleOf_ok h; rfl
      | decimal x | complex re im => exact htext h
      | declared address =>
          rw [atomData, run_get] at h
          split at h
          · obtain ⟨x, rfl⟩ := doubleOf_ok h; rfl
          · exact htext h
  | _ => cases h; rfl

/-- Every mapping that lowering makes has distinct keys. -/
theorem distinct_encode (hrun : encode r first = .ok d last) : d.Throughout Data.HasDistinctKeys := by
  refine Invariant.encode (K := fun _ => True) (P := fun d => d.Throughout Data.HasDistinctKeys) ?_ hrun
  exact {
    leaf := fun {_ _ _ _ d} _ _ hd _ => by
      have hleaf := isLeaf_of_atomData hd
      refine Data.throughout_of_leaf hleaf ?_
      cases d with
      | dict entries => cases hleaf
      | _ => trivial
    key := fun _ _ _ _ _ _ => trivial
    field := fun _ => trivial
    name := fun _ => Data.throughout_of_leaf rfl trivial
    list := fun h => Data.throughout_list.mpr ⟨trivial, h⟩
    dict := fun h => Data.throughout_dict.mpr ⟨Data.nodup_ofEntries _, forall_mem_ofEntries fun e he => (h e he).2⟩ }

end Introspect.Lower
