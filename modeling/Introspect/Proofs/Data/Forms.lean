import Introspect.Proofs.Data.Display
/-!
Lowering without the world where objects supply forms of their own. What a method answers is described by a tree
over the objects of a graph; the containers in it may be new ones, at other places in every run.
-/
namespace Introspect.Lower

open World Dispatch

/-! ## Forms -/

/-- What a container becomes when the data of its contents are known. -/
inductive Kind where
  | list
  | set
  | dict (keys : List Data.Text)

def Kind.assemble (ds : List Data) : Kind → Except Fault Data
  | .list => .ok (.list ds)
  | .set => .list <$> byDisplay ds
  | .dict keys => .ok (.dict (Data.ofEntries (keys.zip ds)))

/-- What stands for the form that an object supplies: objects of the graph and plain data, boxes, new containers, and
new objects that supply a form in turn. -/
inductive Form where
  | known (r : Ref)
  | plain (d : Data)
  | box (content : Form)
  | container (kind : Kind) (contents : List Form)
  | supplier (answer : Form)

/-- The form that an object supplies, if it does. -/
def supplied (r : Ref) : Act (Option Ref) := do
  match ← ask.attribute? r formMethod with
  | some hook => if isCallable (← get) hook then return some (← ask (.call hook [] [])) else return none
  | none => return none

/-- What is lowered for an object whose form is known. -/
def proceed (recur : List Ref → Ref → Act Data) (active : List Ref) (r : Ref) : Option Ref → Act Data
  | some answer => recur active answer
  | none => content recur active r

theorem reference_eq (recur : List Ref → Ref → Act Data) (active : List Ref) (r : Ref) :
    reference recur active r = supplied r >>= proceed recur active r := by
  rw [reference, supplied, bind_assoc]
  refine bind_congr fun hook => ?_
  cases hook with
  | none => rfl
  | some hook =>
      simp only [bind_assoc]
      refine bind_congr fun w => ?_
      split
      · simp only [bind_assoc, pure_bind]
        rfl
      · rw [pure_bind]
        rfl

/-! ## Containers -/

def shownPairs (pairs : List (String × Ref)) : List (String × Ref) := pairs.filter fun e => !e.1.startsWith "_"

/-- The reference is a container of the kind, and these are its contents; reading it has settled. -/
inductive IsContainer (u : World) (r : Ref) : Kind → List Ref → Prop where
  | mapping {pairs keys} : u.body r = .mapping pairs → List.Forall₂ (fun p t => u.Steady (key p.1) (.ok t)) pairs keys →
      IsContainer u r (.dict keys) (pairs.map (·.2))
  | members {items} : u.body r = .members items → IsContainer u r .set items
  | items {items} : isTracked u r = true → (∀ pairs, u.body r ≠ .mapping pairs) → (∀ members, u.body r ≠ .members members) →
      u.items? r = some items → IsContainer u r .list items
  | object {pairs} : u.isObject r = true → u.Steady (fields r) (.ok pairs) →
      IsContainer u r (.dict ((shownPairs pairs).map fun e => .plain e.1)) ((shownPairs pairs).map (·.2))

variable {w b v u : World} {S : List Ref} {r c x : Ref} {active : List Ref} {k : Kind} {cs : List Ref}

theorem isTracked_of_isObject (h : u.isObject r = true) : isTracked u r = true := by
  unfold World.isObject at h
  unfold isTracked
  cases hb : u.body r <;> simp_all

theorem IsContainer.isTracked (h : IsContainer u r k cs) : isTracked u r = true := by
  cases h with
  | mapping hb _ | members hb => rw [Lower.isTracked, hb]
  | items ht _ _ _ => exact ht
  | object ho _ => exact isTracked_of_isObject ho

theorem isTracked_grows (hr : u.Has r) (hv : u.Grows v) : isTracked v r = isTracked u r := by
  simp only [Lower.isTracked, hv.body hr]

theorem IsContainer.mono (h : IsContainer u r k cs) (hr : u.Has r) (hv : u.Leads v) : IsContainer v r k cs := by
  have hbody := hv.grows.body hr
  cases h with
  | mapping hb hkeys => exact .mapping (hbody.trans hb) (hkeys.imp fun _ _ h => h.mono hv)
  | members hb => exact .members (hbody.trans hb)
  | items ht hmap hset hi =>
      exact .items ((isTracked_grows hr hv.grows).trans ht) (fun pairs => hbody ▸ hmap pairs)
        (fun members => hbody ▸ hset members) ((hv.grows.items? hr).trans hi)
  | object ho hfields =>
      exact .object (by rw [World.isObject, hbody]; exact ho) (hfields.mono hv)

section Content

variable {α : Type} {recur : List Ref → Ref → Act Data} {f : α → Except Fault Data} {gs : List α}

theorem steady_items_of (h : List.Forall₂ (fun c g => b.Steady (recur active c) (f g)) cs gs) :
    b.Steady (items recur active cs) (gs.mapM f) := by
  induction h with
  | nil => exact .pure b []
  | cons hc _ ih =>
      rw [List.mapM_cons]
      exact hc.bind fun d _ => ih.bind fun found _ => .pure b _

theorem steady_entries_of {pairs : List (Ref × Ref)} {keys : List Data.Text}
    (hkeys : List.Forall₂ (fun p t => b.Steady (key p.1) (.ok t)) pairs keys)
    (h : List.Forall₂ (fun c g => b.Steady (recur active c) (f g)) (pairs.map (·.2)) gs) :
    b.Steady (entries recur active pairs) (do return keys.zip (← gs.mapM f)) := by
  induction hkeys generalizing gs with
  | nil =>
      cases h
      exact .pure b []
  | @cons p t pairs keys hp _ ih =>
      cases h with
      | @cons _ g _ gs hc hrest =>
          simp only [List.mapM_cons, bind_assoc, pure_bind]
          have hfound := ih hrest
          refine hp.bind (g := fun t => do
            let d ← f g
            let ds ← gs.mapM f
            return (t :: keys).zip (d :: ds)) fun t' ht' => ?_
          cases ht'
          refine hc.bind fun d _ => ?_
          have hmore := hfound.bind (f := fun found => pure ((t, d) :: found)) (g := fun found => pure ((t, d) :: found))
            fun found _ => .pure b _
          simp only [bind_assoc, pure_bind] at hmore
          exact hmore

theorem steady_publicFields_of {pairs : List (String × Ref)}
    (h : List.Forall₂ (fun c g => b.Steady (recur active c) (f g)) ((shownPairs pairs).map (·.2)) gs) :
    b.Steady (publicFields recur active pairs) (do
      return ((shownPairs pairs).map fun e => Data.Text.plain e.1).zip (← gs.mapM f)) := by
  induction pairs generalizing gs with
  | nil =>
      cases h
      exact .pure b []
  | cons e rest ih =>
      rw [publicFields]
      split
      · rename_i hhidden
        have hskip : shownPairs (e :: rest) = shownPairs rest := List.filter_cons_of_neg (by simpa using hhidden)
        rw [hskip] at h ⊢
        exact ih h
      · rename_i hshown
        have hkeep : shownPairs (e :: rest) = e :: shownPairs rest := List.filter_cons_of_pos (by simpa using hshown)
        rw [hkeep] at h ⊢
        cases h with
        | @cons _ g _ gs hc hrest =>
            simp only [List.mapM_cons, List.map_cons, bind_assoc, pure_bind]
            refine hc.bind fun d _ => ?_
            have hmore := (ih hrest).bind (f := fun found => pure ((Data.Text.plain e.1, d) :: found))
              (g := fun found => pure ((Data.Text.plain e.1, d) :: found)) fun found _ => .pure b _
            simp only [bind_assoc, pure_bind] at hmore
            exact hmore

/-- Where the contents of a container are lowered as their forms say, so is the container. -/
theorem steady_content_of (hr : b.Has r) (hc : IsContainer b r k cs)
    (h : List.Forall₂ (fun c g => b.Steady (recur active c) (f g)) cs gs) :
    b.Steady (content recur active r) (do k.assemble (← gs.mapM f)) := by
  refine .get fun v hv => ?_
  have hc := hc.mono hr hv
  have h := h.imp fun _ _ h => h.mono hv
  cases hc with
  | mapping hb hkeys =>
      rw [hb]
      have hentries := (steady_entries_of hkeys h).bind (f := fun found => pure (Data.dict (Data.ofEntries found)))
        (g := fun found => pure (Data.dict (Data.ofEntries found))) fun found _ => .pure v _
      simp only [bind_assoc, pure_bind] at hentries
      exact hentries
  | members hb =>
      rw [hb]
      simp only [Kind.assemble, map_eq_pure_bind]
      refine (steady_items_of h).bind fun ds _ => ?_
      exact (steady_liftExcept v _).bind fun ds _ => .pure v _
  | items ht hmap hset hi =>
      split
      · exact absurd ‹_› (hmap _)
      · exact absurd ‹_› (hset _)
      · rw [hi]
        exact (steady_items_of h).bind fun ds _ => .pure v _
  | object ho hfields =>
      have hitems := items?_of_isObject ho
      have hshown := (steady_publicFields_of h).bind (f := fun found => pure (Data.dict (Data.ofEntries found)))
        (g := fun found => pure (Data.dict (Data.ofEntries found))) fun found _ => .pure v _
      simp only [bind_assoc, pure_bind] at hshown
      unfold World.isObject at ho
      split
      · simp_all
      · simp_all
      · rw [hitems]
        refine hfields.bind (g := fun _ => do
          let ds ← gs.mapM f
          return Data.dict (Data.ofEntries (((shownPairs _).map fun e => Data.Text.plain e.1).zip ds))) fun pairs' hp => ?_
        cases hp
        exact hshown

end Content

/-! ## References of a form -/

/-- An object that came after the first world. -/
structure IsNew (v u : World) (above : List Ref) (r : Ref) : Prop where
  has : u.Has r
  later : ¬ v.Has r
  below : r ∉ above

mutual

/-- What came between the two worlds is of the form. New objects are below none that they contain. -/
def Shows (S : List Ref) : Form → World → World → List Ref → Ref → Prop
  | .known x, _, _, _, r => r = x ∧ x ∈ S
  | .plain d, _, u, _, r => u.Has r ∧ ∃ a, u.body r = .atom a ∧ u.Steady (atomData r a) (.ok d)
  | .box g, v, u, above, r => u.Has r ∧ ∃ c t, u.body r = .box c t ∧ Shows S g v u above c
  | .container k gs, v, u, above, r => IsNew v u above r ∧ u.Steady (supplied r) (.ok none) ∧
      ∃ cs, IsContainer u r k cs ∧ ShowAll S gs v u (r :: above) cs
  | .supplier g, v, u, above, r => IsNew v u above r ∧ isTracked u r = true ∧
      ∀ u', u.Leads u' → ∃ u'' c, u'.Leads u'' ∧ supplied r u' = .ok (some c) u'' ∧ Shows S g u' u'' [] c

def ShowAll (S : List Ref) : List Form → World → World → List Ref → List Ref → Prop
  | [], _, _, _, cs => cs = []
  | g :: gs, v, u, above, cs => ∃ c rest, cs = c :: rest ∧ Shows S g v u above c ∧ ShowAll S gs v u above rest

end

/-- Whenever the object is asked for its form, it supplies one of this kind, or none. -/
def Supplies (S : List Ref) (b : World) (r : Ref) : Option Form → Prop
  | none => b.Steady (supplied r) (.ok none)
  | some g => ∀ v, b.Leads v → ∃ u c, v.Leads u ∧ supplied r v = .ok (some c) u ∧ Shows S g v u [] c

variable {u' : World} {above : List Ref} {g : Form} {gs : List Form}

theorem IsNew.mono (h : IsNew v u above r) (hu : u.Leads u') : IsNew v u' above r := ⟨hu.grows.has h.has, h.later, h.below⟩

theorem showAll_iff : ShowAll S gs v u above cs ↔ List.Forall₂ (fun g c => Shows S g v u above c) gs cs := by
  induction gs generalizing cs with
  | nil => rw [ShowAll, List.forall₂_nil_left_iff]
  | cons g gs ih =>
      rw [ShowAll, List.forall₂_cons_left_iff]
      exact exists_congr fun c => exists_congr fun rest => by
        rw [ih]
        tauto

theorem Supplies.mono {o : Option Form} (h : Supplies S b r o) (hb : b.Leads v) : Supplies S v r o := by
  cases o with
  | none => exact World.Steady.mono h hb
  | some g => exact fun u hu => h u (hb.trans hu)

mutual

theorem shows_mono (hu : u.Leads u') (above : List Ref) (r : Ref) :
    (g : Form) → Shows S g v u above r → Shows S g v u' above r
  | .known _, h => h
  | .plain _, ⟨hhas, a, ha, hd⟩ => ⟨hu.grows.has hhas, a, (hu.grows.body hhas).trans ha, hd.mono hu⟩
  | .box g, ⟨hhas, c, t, hb, hc⟩ => ⟨hu.grows.has hhas, c, t, (hu.grows.body hhas).trans hb, shows_mono hu above c g hc⟩
  | .container _ gs, ⟨hnew, hnone, cs, hk, hcs⟩ =>
    ⟨hnew.mono hu, hnone.mono hu, cs, hk.mono hnew.has hu, showAll_mono hu (r :: above) cs gs hcs⟩
  | .supplier _, ⟨hnew, ht, hg⟩ =>
    ⟨hnew.mono hu, (isTracked_grows hnew.has hu.grows).trans ht, fun w hw => hg w (hu.trans hw)⟩

theorem showAll_mono (hu : u.Leads u') (above : List Ref) (cs : List Ref) :
    (gs : List Form) → ShowAll S gs v u above cs → ShowAll S gs v u' above cs
  | [], h => h
  | g :: gs, ⟨c, rest, hcs, hc, hrest⟩ => ⟨c, rest, hcs, shows_mono hu above c g hc, showAll_mono hu above rest gs hrest⟩

end

end Introspect.Lower
