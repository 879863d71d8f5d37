import Introspect.Proofs.Data.Forms
/-!
What graphs become whose objects may supply forms. As objects of the graph stand in the forms again, an object in
progress is met again below a form too; what a form adds to the world is never in progress before.
-/
namespace Introspect.Lower

open World Dispatch

variable {w b v u : World} {S : List Ref} {form : Ref → Option Form} {r c : Ref} {active : List Ref}

/-! ## Without the world -/

noncomputable def kindOf (w : World) (r : Ref) : Kind :=
  match w.body r with
  | .mapping entries => .dict (entries.map fun e => keyOf w e.1)
  | .members _ => .set
  | _ =>
    match w.items? r with
    | some _ => .list
    | none => .dict ((publicStorage w r).map fun e => .plain e.1)

noncomputable def formedStep (w : World) (form : Ref → Option Form)
    (recur : List Ref → Form → Except Fault Data) (active : List Ref) : Form → Except Fault Data
  | .plain d => .ok d
  | .box g | .supplier g => recur active g
  | .container k gs => gs.mapM (recur active) >>= k.assemble
  | .known r =>
    match w.body r with
    | .atom a => w.answer (atomData r a)
    | .box value _ => recur active (.known value)
    | .cls c => .ok (.text (.plain (w.info c).fullName))
    | .routine _ | .bound .. | .partialCall _ | .methodWrapper => .error (.notSerializable (Registry.typeName w r))
    | _ =>
      if active.contains r then .error (.cyclic (Registry.typeName w r))
      else
        match form r with
        | some g => recur (r :: active) g
        | none => ((contents w r).map .known).mapM (recur (r :: active)) >>= (kindOf w r).assemble

/-- The data of a form, where `form` tells which objects supply one. -/
noncomputable def formed (w : World) (form : Ref → Option Form) : Nat → List Ref → Form → Except Fault Data
  | 0, _, _ => .error .nesting
  | depth + 1, active, g => formedStep w form (formed w form depth) active g

theorem formedStep_tracked {recur : List Ref → Form → Except Fault Data} (ht : isTracked w r = true) :
    formedStep w form recur active (.known r) =
      if active.contains r then .error (.cyclic (Registry.typeName w r))
      else match form r with
        | some g => recur (r :: active) g
        | none => ((contents w r).map .known).mapM (recur (r :: active)) >>= (kindOf w r).assemble := by
  unfold isTracked at ht
  unfold formedStep
  cases hb : w.body r <;> simp_all

theorem formed_container (ht : isTracked w r = true) (hr : r ∉ active) (hf : form r = none)
    (hds : List.Forall₂ (fun c d => formed w form depth (r :: active) (.known c) = .ok d) (contents w r) ds)
    (hd : (kindOf w r).assemble ds = .ok d) : formed w form (depth + 1) active (.known r) = .ok d := by
  rw [formed, formedStep_tracked ht, if_neg (by simpa using hr), hf]
  exact bind_ok_iff.mpr ⟨ds, mapM_ok_iff.mpr (List.forall₂_map_left_iff.mpr hds), hd⟩

/-! ## Worlds that answer for the graph -/

/-- References with all their parts, each object with the form that it supplies if it does. -/
structure FormGraph (w : World) (S : List Ref) (form : Ref → Option Form) : Prop extends w.Closed S where
  values : ∀ r ∈ S, ∀ a, w.body r = .atom a → ∃ x, w.Settles (atomData r a) x
  forms : ∀ r ∈ S, isTracked w r = true → ∀ᶠ n in Filter.atTop, Supplies S (w.limited n) r (form r)
  keys : ∀ r ∈ S, form r = none → ∀ entries, w.body r = .mapping entries → ∀ e ∈ entries, ∃ k, w.Settles (key e.1) (.ok k)
  storage : ∀ r ∈ S, form r = none → w.isObject r = true → ∃ pairs, w.Settles (fields r) (.ok pairs)

/-- A world in which everything that lowering the graph asks for has settled. -/
structure FormReady (w : World) (S : List Ref) (form : Ref → Option Form) (b : World) : Prop where
  grows : w.Grows b
  values : ∀ r ∈ S, ∀ a, w.body r = .atom a → b.Steady (atomData r a) (w.answer (atomData r a))
  forms : ∀ r ∈ S, isTracked w r = true → Supplies S b r (form r)
  containers : ∀ r ∈ S, isTracked w r = true → form r = none → IsContainer b r (kindOf w r) (contents w r)

theorem FormReady.mono (hS : w.Closed S) (hb : FormReady w S form b) (hv : b.Leads v) : FormReady w S form v where
  grows := hb.grows.trans hv.grows
  values r hr a ha := (hb.values r hr a ha).mono hv
  forms r hr ht := (hb.forms r hr ht).mono hv
  containers r hr ht hf := (hb.containers r hr ht hf).mono (hb.grows.has (hS.has r hr)) hv

theorem FormGraph.eventually_isContainer (hG : FormGraph w S form) (hr : r ∈ S) (ht : isTracked w r = true)
    (hf : form r = none) : ∀ᶠ n in Filter.atTop, IsContainer (w.limited n) r (kindOf w r) (contents w r) := by
  by_cases hmap : ∃ entries, w.body r = .mapping entries
  · obtain ⟨entries, hb⟩ := hmap
    have hkeys : ∀ᶠ n in Filter.atTop, ∀ k ∈ entries.map (·.1), (w.limited n).Steady (key k) (.ok (keyOf w k)) :=
      eventually_forall_mem fun k hk => by
        obtain ⟨e, he, rfl⟩ := List.mem_map.mp hk
        obtain ⟨found, hfound⟩ := hG.keys r hr hf entries hb e he
        rw [keyOf_eq hfound]
        exact hfound
    refine hkeys.mono fun n hn => ?_
    simp only [kindOf, contents, hb]
    refine .mapping hb (List.forall₂_map_right_iff.mpr (List.forall₂_same.mpr fun e he => ?_))
    exact hn e.1 (List.mem_map_of_mem he)
  by_cases hset : ∃ members, w.body r = .members members
  · obtain ⟨members, hb⟩ := hset
    simp only [kindOf, contents, hb]
    exact .of_forall fun n => .members hb
  push Not at hmap hset
  have hkind : kindOf w r = match w.items? r with
      | some _ => .list
      | none => .dict ((publicStorage w r).map fun e => .plain e.1) := by
    unfold kindOf
    cases hb : w.body r <;> simp_all
  rw [hkind, contents_of_other ht hmap hset]
  cases hi : w.items? r with
  | some items => exact .of_forall fun n => .items ht hmap hset hi
  | none =>
      have ho := isObject_of_tracked ht hmap hset hi
      obtain ⟨pairs, hp⟩ := hG.storage r hr hf ho
      have hshown : publicStorage w r = shownPairs pairs := by rw [publicStorage, storage_eq hp, shownPairs]
      rw [hshown]
      exact hp.mono fun n hn => .object ho hn

theorem FormGraph.eventually_ready (hG : FormGraph w S form) :
    ∀ᶠ n in Filter.atTop, FormReady w S form (w.limited n) := by
  have hvalues : ∀ᶠ n in Filter.atTop, ∀ r ∈ S, ∀ a, w.body r = .atom a →
      (w.limited n).Steady (atomData r a) (w.answer (atomData r a)) := by
    refine eventually_forall_mem fun r hr => ?_
    cases hb : w.body r with
    | atom a => exact (settles_answer (hG.values r hr a hb)).mono fun n hn a' ha => by cases ha; exact hn
    | _ => exact .of_forall fun n a ha => by cases ha
  have hforms : ∀ᶠ n in Filter.atTop, ∀ r ∈ S, isTracked w r = true → Supplies S (w.limited n) r (form r) :=
    eventually_forall_mem fun r hr => Filter.eventually_imp_distrib_left.mpr (hG.forms r hr)
  have hcontainers : ∀ᶠ n in Filter.atTop, ∀ r ∈ S, isTracked w r = true → form r = none →
      IsContainer (w.limited n) r (kindOf w r) (contents w r) :=
    eventually_forall_mem fun r hr => Filter.eventually_imp_distrib_left.mpr fun ht =>
      Filter.eventually_imp_distrib_left.mpr fun hf => hG.eventually_isContainer hr ht hf
  filter_upwards [hvalues, hforms, hcontainers] with n hvalues hforms hcontainers
  exact ⟨w.grows_limited n, hvalues, hforms, hcontainers⟩

/-! ## Lowering on a world does as the pure one does -/

/-- References in progress on a world and in the graph. A reference that is none of the graph came with the form that
the second world adds to the first, or was there before. -/
structure InProgress (S : List Ref) (v u : World) (above active active' : List Ref) : Prop where
  same : ∀ x ∈ S, x ∈ active ↔ x ∈ active'
  has : ∀ x ∈ active, u.Has x
  before : ∀ x ∈ active, v.Has x ∨ x ∈ above

namespace InProgress

variable {v' u' : World} {above active' : List Ref}

theorem mono (h : InProgress S v u above active active') (hu : u.Leads u') : InProgress S v u' above active active' :=
  ⟨h.same, fun x hx => hu.grows.has (h.has x hx), h.before⟩

/-- In a later world all of them were there before. -/
theorem restart (h : InProgress S v u above active active') (hv : u.Leads v') (hu : v'.Leads u') :
    InProgress S v' u' [] active active' :=
  ⟨h.same, fun x hx => hu.grows.has (hv.grows.has (h.has x hx)), fun x hx => .inl (hv.grows.has (h.has x hx))⟩

theorem cons_known (h : InProgress S v u above active active') (hr : u.Has r) :
    InProgress S u u [] (r :: active) (r :: active') where
  same x hx := by rw [List.mem_cons, List.mem_cons, h.same x hx]
  has := List.forall_mem_cons.mpr ⟨hr, h.has⟩
  before := List.forall_mem_cons.mpr ⟨.inl hr, fun x hx => .inl (h.has x hx)⟩

theorem cons_new (h : InProgress S v u above active active') (hS : ∀ x ∈ S, v.Has x) (hr : IsNew v u above r) :
    InProgress S v u (r :: above) (r :: active) active' where
  same x hx := by
    have hne : x ≠ r := fun heq => hr.later (heq ▸ hS x hx)
    rw [List.mem_cons, or_iff_right hne, h.same x hx]
  has := List.forall_mem_cons.mpr ⟨hr.has, h.has⟩
  before := List.forall_mem_cons.mpr
    ⟨.inr List.mem_cons_self, fun x hx => (h.before x hx).imp_right (List.mem_cons_of_mem _)⟩

/-- What is new is not in progress. -/
theorem contains_new (h : InProgress S v u above active active') (hr : IsNew v u above r) : active.contains r = false := by
  rw [List.contains_eq_mem, decide_eq_false_iff_not]
  exact fun hmem => (h.before r hmem).elim hr.later hr.below

end InProgress

theorem steady_lower_tracked {recur : List Ref → Ref → Act Data} {x : Except Fault Data} (hr : b.Has r)
    (ht : isTracked b r = true) (hmem : active.contains r = false)
    (h : b.Steady (reference recur (r :: active) r) x) : b.Steady (lower recur active r) x := by
  refine .get fun v hv => ?_
  have ht' := (isTracked_grows hr hv.grows).trans ht
  unfold isTracked at ht'
  cases hb : v.body r <;> simp only [hb, Bool.false_eq_true] at ht'
  all_goals
    simp only [hmem, Bool.false_eq_true, if_false]
    exact h.mono hv

section Simulation

variable {recur : List Ref → Ref → Act Data} {recur' : List Ref → Form → Except Fault Data}

/-- Whatever is of a form is lowered to the data of that form. -/
def Simulates (b : World) (S : List Ref) (recur : List Ref → Ref → Act Data)
    (recur' : List Ref → Form → Except Fault Data) : Prop :=
  ∀ v u above active active' g r, b.Leads v → v.Leads u → InProgress S v u above active active' →
    Shows S g v u above r → u.Steady (recur active r) (recur' active' g)

theorem steady_supplier {above active' : List Ref} {g : Form} (h : Simulates b S recur recur') (hu : b.Leads u)
    (hactive : InProgress S v u above active active') (hg : Supplies S u r (some g)) :
    u.Steady (reference recur active r) (recur' active' g) := by
  rw [reference_eq]
  refine .through fun v' hv' => ?_
  obtain ⟨u', c, hu', hrun, hc⟩ := hg v' hv'
  exact ⟨u', some c, hu', hrun, h v' u' [] _ _ g c (hu.trans hv') hu' (hactive.restart hv' hu') hc⟩

theorem steady_container {above active' : List Ref} {k : Kind} {gs : List Form} {cs : List Ref}
    (h : Simulates b S recur recur') (hv : b.Leads v) (hu : v.Leads u)
    (hactive : InProgress S v u above active active') (hr : u.Has r) (hnone : u.Steady (supplied r) (.ok none))
    (hk : IsContainer u r k cs) (hcs : ShowAll S gs v u above cs) :
    u.Steady (reference recur active r) (gs.mapM (recur' active') >>= k.assemble) := by
  rw [reference_eq]
  refine hnone.bind (g := fun _ => gs.mapM (recur' active') >>= k.assemble) fun o ho => ?_
  cases ho
  have hall := (showAll_iff.mp hcs).imp fun g c hc => h v u above active active' g c hv hu hactive hc
  exact steady_content_of hr hk hall.flip

theorem steady_known {above active' : List Ref} (hG : FormGraph w S form) (hb : FormReady w S form b)
    (h : Simulates b S recur recur') (hv : b.Leads v) (hu : v.Leads u)
    (hactive : InProgress S v u above active active') (hr : r ∈ S) :
    u.Steady (lower recur active r) (formedStep w form recur' active' (.known r)) := by
  refine .get fun u' hu' => ?_
  have hready := hb.mono hG.toClosed ((hv.trans hu).trans hu')
  have hactive := hactive.mono hu'
  have hhas := hready.grows.has (hG.has r hr)
  have hname : u'.Steady (Registry.qnameOf r) (.ok (Registry.typeName w r)) := by
    rw [← Registry.typeName_grows hG.sound (hG.has r hr) hready.grows]
    exact Registry.steady_qnameOf (hready.grows.sound hG.sound) hhas
  have hcode : u'.Steady (do throw (.notSerializable (← Registry.qnameOf r)))
      (.error (.notSerializable (Registry.typeName w r)) : Except Fault Data) :=
    hname.bind (g := fun name => .error (.notSerializable name)) fun name _ => .throw u' _
  rw [hready.grows.body (hG.has r hr), formedStep]
  cases hbody : w.body r with
  | atom a => exact hready.values r hr a hbody
  | box value t =>
      have hvalue := hG.parts r hr value (.inl (.content hbody))
      exact h v u' above active active' (.known value) value hv (hu.trans hu') hactive ⟨rfl, hvalue⟩
  | cls c =>
      simp only [hready.grows.info]
      exact .pure u' _
  | routine code => exact hcode
  | bound x code => exact hcode
  | partialCall code => exact hcode
  | methodWrapper => exact hcode
  | _ =>
      have ht : isTracked w r = true := by simp only [isTracked, hbody]
      have hsame : active'.contains r = active.contains r := by
        rw [Bool.eq_iff_iff, List.contains_iff_mem, List.contains_iff_mem]
        exact (hactive.same r hr).symm
      dsimp only
      rw [hsame]
      split
      · exact hname.bind (g := fun name => .error (.cyclic name)) fun name _ => .throw u' _
      · have hbelow := hactive.cons_known hhas
        have hforms := hready.forms r hr ht
        split
        · rename_i g hg
          rw [hg] at hforms
          exact steady_supplier h ((hv.trans hu).trans hu') hbelow hforms
        · rename_i hnone
          rw [hnone] at hforms
          refine steady_container h ((hv.trans hu).trans hu') (.refl u') hbelow hhas hforms
            (hready.containers r hr ht hnone) ?_
          rw [showAll_iff, List.forall₂_map_left_iff, List.forall₂_same]
          exact fun c hc => ⟨rfl, hG.parts r hr c (Traverses.part hc)⟩

theorem steady_formedStep (hG : FormGraph w S form) (hb : FormReady w S form b) (h : Simulates b S recur recur') :
    Simulates b S (lower recur) (formedStep w form recur') := by
  intro v u above active active' g r hv hu hactive hg
  have hnew (x : Ref) (hx : x ∈ S) : v.Has x := hv.grows.has (hb.grows.has (hG.has x hx))
  cases g with
  | known x =>
      obtain ⟨rfl, hr⟩ := hg
      exact steady_known hG hb h hv hu hactive hr
  | plain d =>
      obtain ⟨hhas, a, ha, hd⟩ := hg
      refine .get fun u' hu' => ?_
      rw [hu'.grows.body hhas, ha]
      exact hd.mono hu'
  | box g =>
      obtain ⟨hhas, c, t, hbody, hc⟩ := hg
      refine .get fun u' hu' => ?_
      rw [hu'.grows.body hhas, hbody]
      exact h v u' above active active' g c hv (hu.trans hu') (hactive.mono hu') (shows_mono hu' above c g hc)
  | container k gs =>
      obtain ⟨hr, hnone, cs, hk, hcs⟩ := hg
      exact steady_lower_tracked hr.has hk.isTracked (hactive.contains_new hr)
        (steady_container h hv hu (hactive.cons_new hnew hr) hr.has hnone hk hcs)
  | supplier g =>
      obtain ⟨hr, ht, hg⟩ := hg
      have hsupplies : Supplies S u r (some g) := hg
      change u.Steady (lower recur active r) (recur' active' g)
      exact steady_lower_tracked hr.has ht (hactive.contains_new hr)
        (steady_supplier h (hv.trans hu) (hactive.cons_new hnew hr) hsupplies)

theorem simulates_within (hG : FormGraph w S form) (hb : FormReady w S form b) (depth : Nat) :
    Simulates b S (within depth) (formed w form depth) := by
  induction depth with
  | zero => exact fun _ u _ _ _ _ _ _ _ _ _ => .throw u .nesting
  | succ depth ih => exact steady_formedStep hG hb ih

theorem steady_encode_formed {n : Nat} (hG : FormGraph w S form) (hb : FormReady w S form (w.limited n)) (hr : r ∈ S) :
    (w.limited n).Steady (encode r) (formed w form n [] (.known r)) := by
  refine .get fun v hv => ?_
  rw [hv.nesting]
  refine simulates_within hG hb n v v [] [] [] (.known r) r hv (.refl v) ⟨fun _ _ => .rfl, ?_, ?_⟩ ⟨rfl, hr⟩ <;>
    exact fun x hx => absurd hx List.not_mem_nil

end Simulation

/-! ## More depth lowers the same -/

theorem refines_formedStep {recur recur' : List Ref → Form → Except Fault Data}
    (h : ∀ active g, Refines (recur active g) (recur' active g)) (active : List Ref) (g : Form) :
    Refines (formedStep w form recur active g) (formedStep w form recur' active g) := by
  have hmapM (active : List Ref) (gs : List Form) (k : Kind) :
      Refines (gs.mapM (recur active) >>= k.assemble) (gs.mapM (recur' active) >>= k.assemble) :=
    (Refines.mapM fun g => h active g).bind fun _ => .refl _
  cases g with
  | known r =>
      simp only [formedStep]
      split
      case h_2 => exact h active _
      case h_8 =>
        split
        · exact .refl _
        · split
          · exact h _ _
          · exact hmapM _ _ _
      all_goals exact .refl _
  | plain d => exact .refl _
  | box g | supplier g => exact h active g
  | container k gs => exact hmapM active gs k

theorem refines_formed {n m : Nat} (hnm : n ≤ m) (active : List Ref) (g : Form) :
    Refines (formed w form n active g) (formed w form m active g) := by
  induction n generalizing m active g with
  | zero => exact fun hne => absurd rfl hne
  | succ n ih =>
      cases m with
      | zero => cases hnm
      | succ m => exact refines_formedStep (fun active g => ih (Nat.le_of_succ_le_succ hnm) active g) active g

/-- The encoder settles on data exactly if some depth suffices for them. -/
theorem settles_encode_ok_iff (hG : FormGraph w S form) (hr : r ∈ S) {d : Data} :
    w.Settles (encode r) (.ok d) ↔ ∃ depth, formed w form depth [] (.known r) = .ok d := by
  constructor
  · intro h
    obtain ⟨n, hn, hready⟩ := (h.and hG.eventually_ready).exists
    exact ⟨n, (steady_encode_formed hG hready hr).unique hn⟩
  · rintro ⟨depth, h⟩
    filter_upwards [hG.eventually_ready, Filter.eventually_ge_atTop depth] with n hready hn
    have hsteady := steady_encode_formed hG hready hr
    rwa [refines_formed hn [] (.known r) (by rw [h]; simp), h] at hsteady

end Introspect.Lower
