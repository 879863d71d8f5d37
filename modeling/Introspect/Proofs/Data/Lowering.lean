import Introspect.Proofs.Data.Graph
import Introspect.Proofs.Dispatch.NativeText
import Introspect.Proofs.Registry.Find
import Introspect.Proofs.Results
/-!
Lowering without the world: the plain data of a graph of references that no hook has a part in. What is
lowered under one limit of nesting, or fails for another reason than the limit, ends alike under every
larger one.
-/
namespace Introspect.Lower

open World Dispatch

/-! ## What lowering comes to -/

def plainData : Atom → Data
  | .none => .null
  | .bool b => .bool b
  | .number (.int i) => .int i
  | .number (.float x) => .float x
  | .number n => .text (.plain n.text)
  | .text s => .text (.plain s)
  | .bytes b => .text (.plain (Text.Utf8.decodeReplacing b))

noncomputable def keyOf (w : World) (k : Ref) : Data.Text :=
  match w.answer (key k) with
  | .ok k => k
  | .error _ => .plain ""

theorem keyOf_eq {w : World} {k : Ref} {found : Data.Text} (h : w.Settles (key k) (.ok found)) :
    keyOf w k = found := by
  simp only [keyOf, h.answer_eq]

/-- The data of an object, made of the data of what it contains. -/
noncomputable def assembled (w : World) (r : Ref) (ds : List Data) : Except Fault Data :=
  match w.body r with
  | .mapping entries => .ok (.dict (Data.ofEntries ((entries.map fun e => keyOf w e.1).zip ds)))
  | .members _ => .list <$> byDisplay ds
  | _ =>
    match w.items? r with
    | some _ => .ok (.list ds)
    | none => .ok (.dict (Data.ofEntries (((publicStorage w r).map fun e => .plain e.1).zip ds)))

noncomputable def lowerStep (w : World) (recur : List Ref → Ref → Except Fault Data) (active : List Ref)
    (r : Ref) : Except Fault Data :=
  match w.body r with
  | .atom a => .ok (plainData a)
  | .box value _ => recur active value
  | .cls c => .ok (.text (.plain (w.info c).fullName))
  | .routine _ | .bound .. | .partialCall _ | .methodWrapper => .error (.notSerializable (Registry.typeName w r))
  | _ =>
    if active.contains r then .error (.cyclic (Registry.typeName w r))
    else do assembled w r (← (contents w r).mapM (recur (r :: active)))

noncomputable def lowered (w : World) : Nat → List Ref → Ref → Except Fault Data
  | 0, _, _ => .error .nesting
  | depth + 1, active, r => lowerStep w (lowered w depth) active r

variable {w b v : World} {S : List Ref} {r : Ref} {active : List Ref}

/-! ## Steps -/

section Steps

variable {recur : List Ref → Ref → Except Fault Data} {a : Atom} {c : Ref} {id : ClassId} {t : Bool}

theorem lowerStep_atom (hb : w.body r = .atom a) : lowerStep w recur active r = .ok (plainData a) := by
  rw [lowerStep, hb]

theorem lowerStep_cls (hb : w.body r = .cls id) :
    lowerStep w recur active r = .ok (.text (.plain (w.info id).fullName)) := by
  rw [lowerStep, hb]

theorem lowerStep_code (hc : isCode w r = true) :
    lowerStep w recur active r = .error (.notSerializable (Registry.typeName w r)) := by
  unfold isCode at hc
  unfold lowerStep
  cases hb : w.body r <;> simp_all

theorem lowerStep_box (hb : w.body r = .box c t) : lowerStep w recur active r = recur active c := by
  rw [lowerStep, hb]

theorem lowerStep_tracked (ht : isTracked w r = true) : lowerStep w recur active r =
    if active.contains r then .error (.cyclic (Registry.typeName w r))
    else (contents w r).mapM (recur (r :: active)) >>= assembled w r := by
  unfold isTracked at ht
  unfold lowerStep
  cases hb : w.body r <;> simp_all

theorem lowerStep_again (ht : isTracked w r = true) (hr : r ∈ active) :
    lowerStep w recur active r = .error (.cyclic (Registry.typeName w r)) := by
  rw [lowerStep_tracked ht, if_pos (by simpa using hr)]

theorem lowerStep_contents (ht : isTracked w r = true) (hr : r ∉ active) :
    lowerStep w recur active r = (contents w r).mapM (recur (r :: active)) >>= assembled w r := by
  rw [lowerStep_tracked ht, if_neg (by simpa using hr)]

end Steps

/-! ## Worlds that answer for the graph -/

/-- A world in which everything that lowering the graph asks for has settled. -/
structure Ready (w : World) (S : List Ref) (b : World) : Prop where
  grows : w.Grows b
  deep : 1 ≤ b.nesting
  forms : ∀ r ∈ S, isTracked w r = true → ∃ x, b.Steady (ask.attribute? r formMethod) (.ok x) ∧
    ∀ hook, x = some hook → w.Has hook ∧ isCallable w hook = false
  keys : ∀ r ∈ S, ∀ entries, w.body r = .mapping entries → ∀ e ∈ entries, b.Steady (key e.1) (.ok (keyOf w e.1))
  storage : ∀ r ∈ S, w.isObject r = true → b.Steady (fields r) (.ok (w.storage r))

theorem Ready.mono (hb : Ready w S b) (hv : b.Leads v) : Ready w S v where
  grows := hb.grows.trans hv.grows
  deep := hv.nesting ▸ hb.deep
  forms r hr ht := by
    obtain ⟨x, hx, hcallable⟩ := hb.forms r hr ht
    exact ⟨x, hx.mono hv, hcallable⟩
  keys r hr entries hm e he := (hb.keys r hr entries hm e he).mono hv
  storage r hr ho := (hb.storage r hr ho).mono hv

theorem Graph.eventually_ready (hG : Graph w S) : ∀ᶠ n in Filter.atTop, Ready w S (w.limited n) := by
  have hforms : ∀ᶠ n in Filter.atTop, ∀ r ∈ S, isTracked w r = true →
      ∃ x, (w.limited n).Steady (ask.attribute? r formMethod) (.ok x) ∧
        ∀ hook, x = some hook → w.Has hook ∧ isCallable w hook = false :=
    eventually_forall_mem fun r hr => Filter.eventually_imp_distrib_left.mpr fun ht => by
      obtain ⟨x, hx, hcallable⟩ := hG.forms r hr ht
      exact hx.mono fun n hn => ⟨x, hn, hcallable⟩
  have hkeys : ∀ᶠ n in Filter.atTop, ∀ r ∈ S, ∀ entries, w.body r = .mapping entries →
      ∀ k ∈ entries.map (·.1), (w.limited n).Steady (key k) (.ok (keyOf w k)) := by
    refine eventually_forall_mem fun r hr => ?_
    cases hb : w.body r with
    | mapping entries =>
        have hall : ∀ᶠ n in Filter.atTop, ∀ k ∈ entries.map (·.1),
            (w.limited n).Steady (key k) (.ok (keyOf w k)) :=
          eventually_forall_mem fun k hk => by
            obtain ⟨e, he, rfl⟩ := List.mem_map.mp hk
            obtain ⟨found, hfound⟩ := hG.keys r hr entries hb e he
            rw [keyOf_eq hfound]
            exact hfound
        exact hall.mono fun n hn entries' hm => by cases hm; exact hn
    | _ => exact .of_forall fun n entries hm => by cases hm
  have hstorage : ∀ᶠ n in Filter.atTop, ∀ r ∈ S, w.isObject r = true →
      (w.limited n).Steady (fields r) (.ok (w.storage r)) :=
    eventually_forall_mem fun r hr => Filter.eventually_imp_distrib_left.mpr fun ho => by
      obtain ⟨pairs, hp⟩ := hG.storage r hr ho
      rw [storage_eq hp]
      exact hp
  filter_upwards [hforms, hkeys, hstorage, Filter.eventually_ge_atTop 1] with n hforms hkeys hstorage hn
  exact ⟨w.grows_limited n, hn, hforms,
    fun r hr entries hm e he => hkeys r hr entries hm e.1 (List.mem_map_of_mem he), hstorage⟩

/-! ## Plain values -/

theorem isUnhooked_grows (hr : b.Has r) (hv : b.Grows v) {a : Atom} :
    isUnhooked v r a = isUnhooked b r a := by
  cases a with
  | number n => cases n <;> simp only [isUnhooked, declaredHook?_grows hr hv]
  | _ => rfl

theorem steady_intOf {i : Int} (hd : 1 ≤ b.nesting) (hr : b.Has r) (ha : b.body r = .atom (Atom.int i))
    (hh : declaredHook? b r "__int__" = none) : b.Steady (intOf r) (.ok (.int i)) := by
  refine (makes_integer_of_unhooked hd hr ha hh).bind (g := fun _ => .ok (Data.int i))
    fun a hx u q _ hq => .get fun v hv => ?_
  cases hx
  simp only [hv.grows.body hq.has, hq.body, Atom.int]
  exact .pure v _

theorem steady_doubleOf {x : Double} (hd : 1 ≤ b.nesting) (hr : b.Has r)
    (ha : b.body r = .atom (.number (.float x))) (hh : declaredHook? b r "__float__" = none) :
    b.Steady (doubleOf r) (.ok (.float x)) := by
  refine (makes_real_of_unhooked hd hr ha hh).bind (g := fun _ => .ok (Data.float x))
    fun a hx u q _ hq => .get fun v hv => ?_
  cases hx
  simp only [hv.grows.body hq.has, hq.body]
  exact .pure v _

theorem steady_atomData {a : Atom} (hd : 1 ≤ b.nesting) (hr : b.Has r) (ha : b.body r = .atom a)
    (hu : isUnhooked b r a = true) : b.Steady (atomData r a) (.ok (plainData a)) := by
  cases a with
  | number n =>
      cases n with
      | int i => exact steady_intOf hd hr ha (by simpa [isUnhooked] using hu)
      | float x => exact steady_doubleOf hd hr ha (by simpa [isUnhooked] using hu)
      | _ => cases hu
  | _ => exact .pure b _

/-! ## Lowering on a world does as the pure one does -/

theorem assembled_of_other (hmap : ∀ entries, w.body r ≠ .mapping entries)
    (hset : ∀ members, w.body r ≠ .members members) (ds : List Data) :
    assembled w r ds = match w.items? r with
      | some _ => .ok (.list ds)
      | none => .ok (.dict (Data.ofEntries (((publicStorage w r).map fun e => .plain e.1).zip ds))) := by
  unfold assembled
  cases hb : w.body r <;> simp_all

theorem isCallable_grows (hr : b.Has r) (hv : b.Grows v) : isCallable v r = isCallable b r := by
  simp only [isCallable, hv.body hr, declaredHook?_grows hr hv]

section Simulation

variable {recur : List Ref → Ref → Act Data} {recur' : List Ref → Ref → Except Fault Data}

theorem steady_entries (h : ∀ active, ∀ r ∈ S, b.Steady (recur active r) (recur' active r))
    (active : List Ref) (pairs : List (Ref × Ref)) (hv : ∀ e ∈ pairs, e.2 ∈ S)
    (hk : ∀ e ∈ pairs, b.Steady (key e.1) (.ok (keyOf w e.1))) :
    b.Steady (entries recur active pairs) (do
      return (pairs.map fun e => keyOf w e.1).zip (← (pairs.map (·.2)).mapM (recur' active))) := by
  rw [← mapM_labelled]
  induction pairs with
  | nil => exact .pure b []
  | cons e rest ih =>
      obtain ⟨hv, hvs⟩ := List.forall_mem_cons.mp hv
      obtain ⟨hk, hks⟩ := List.forall_mem_cons.mp hk
      simp only [List.mapM_cons, bind_assoc, pure_bind]
      refine hk.bind (g := fun k => do
        let d ← recur' active e.2
        let found ← rest.mapM fun e => do return (keyOf w e.1, ← recur' active e.2)
        return (k, d) :: found) fun k _ => ?_
      exact (h active e.2 hv).bind fun d _ => (ih hvs hks).bind fun found _ => .pure b _

theorem steady_items (h : ∀ active, ∀ r ∈ S, b.Steady (recur active r) (recur' active r))
    (active : List Ref) (members : List Ref) (hm : ∀ r ∈ members, r ∈ S) :
    b.Steady (items recur active members) (members.mapM (recur' active)) := by
  induction members with
  | nil => exact .pure b []
  | cons r rest ih =>
      obtain ⟨hr, hrest⟩ := List.forall_mem_cons.mp hm
      rw [List.mapM_cons]
      exact (h active r hr).bind fun d _ => (ih hrest).bind fun found _ => .pure b _

theorem steady_publicFields (h : ∀ active, ∀ r ∈ S, b.Steady (recur active r) (recur' active r))
    (active : List Ref) (pairs : List (String × Ref)) (hp : ∀ e ∈ pairs, e.2 ∈ S) :
    b.Steady (publicFields recur active pairs) (do
      let shown := pairs.filter fun e => !e.1.startsWith "_"
      return (shown.map fun e => Data.Text.plain e.1).zip (← (shown.map (·.2)).mapM (recur' active))) := by
  dsimp only
  rw [← mapM_labelled]
  induction pairs with
  | nil => exact .pure b []
  | cons e rest ih =>
      obtain ⟨he, hrest⟩ := List.forall_mem_cons.mp hp
      rw [publicFields]
      split
      · rename_i hhidden
        rw [List.filter_cons_of_neg (by simpa using hhidden)]
        exact ih hrest
      · rename_i hshown
        rw [List.filter_cons_of_pos (by simpa using hshown)]
        simp only [List.mapM_cons, bind_assoc, pure_bind]
        exact (h active e.2 he).bind fun d _ => (ih hrest).bind fun found _ => .pure b _

theorem steady_other (hG : Graph w S) (hb : Ready w S b)
    (h : ∀ active, ∀ r ∈ S, b.Steady (recur active r) (recur' active r))
    (active : List Ref) (hr : r ∈ S) (ht : isTracked w r = true)
    (hmap : ∀ entries, w.body r ≠ .mapping entries) (hset : ∀ members, w.body r ≠ .members members) :
    b.Steady (match w.items? r with
        | some members => do return .list (← items recur active members)
        | none => do return .dict (Data.ofEntries (← publicFields recur active (← fields r))))
      (do assembled w r (← (contents w r).mapM (recur' active))) := by
  simp only [contents_of_other ht hmap hset, assembled_of_other hmap hset]
  cases hi : w.items? r with
  | some members =>
      exact (steady_items h active members fun c hc => hG.parts r hr c (.inl (.item hi hc))).bind
        fun ds _ => .pure b _
  | none =>
      have ho := isObject_of_tracked ht hmap hset hi
      have hfields : ∀ e ∈ w.storage r, e.2 ∈ S := fun e he =>
        hG.parts r hr e.2 (.inl (.field ho (n := e.1) he))
      refine (hb.storage r hr ho).bind (g := fun _ => do
        let ds ← ((publicStorage w r).map (·.2)).mapM (recur' active)
        return Data.dict (Data.ofEntries (((publicStorage w r).map fun e => .plain e.1).zip ds)))
        fun pairs hpairs => ?_
      cases hpairs
      have hfields := (steady_publicFields h active (w.storage r) hfields).bind
        (f := fun found => pure (Data.dict (Data.ofEntries found)))
        (g := fun found => pure (Data.dict (Data.ofEntries found))) fun found _ => .pure b _
      simp only [bind_assoc, pure_bind] at hfields
      exact hfields

theorem steady_content (hG : Graph w S) (hb : Ready w S b)
    (h : ∀ active, ∀ r ∈ S, b.Steady (recur active r) (recur' active r))
    (active : List Ref) (hr : r ∈ S) (ht : isTracked w r = true) :
    b.Steady (content recur active r) (do assembled w r (← (contents w r).mapM (recur' active))) := by
  refine .get fun v hv => ?_
  have hready := hb.mono hv
  have hv' := fun active r hr => (h active r hr).mono hv
  rw [hready.grows.body (hG.has r hr), hready.grows.items? (hG.has r hr)]
  split
  · rename_i pairs hbody
    simp only [contents, assembled, hbody]
    have hentries := (steady_entries (w := w) hv' active pairs (fun e he => hG.value hr hbody he)
      (hready.keys r hr pairs hbody)).bind (f := fun found => pure (Data.dict (Data.ofEntries found)))
        (g := fun found => pure (Data.dict (Data.ofEntries found))) fun found _ => .pure v _
    simp only [bind_assoc, pure_bind] at hentries
    exact hentries
  · rename_i members hbody
    simp only [contents, assembled, hbody, map_eq_pure_bind]
    refine (steady_items hv' active members fun c hc => hG.member hr hbody hc).bind fun ds _ => ?_
    exact (steady_liftExcept v _).bind fun ds _ => .pure v _
  · rename_i hmap hset
    exact steady_other hG hready hv' active hr ht hmap hset

theorem steady_reference (hG : Graph w S) (hb : Ready w S b)
    (h : ∀ active, ∀ r ∈ S, b.Steady (recur active r) (recur' active r))
    (active : List Ref) (hr : r ∈ S) (ht : isTracked w r = true) :
    b.Steady (reference recur active r) (do assembled w r (← (contents w r).mapM (recur' active))) := by
  obtain ⟨x, hx, hcallable⟩ := hb.forms r hr ht
  refine hx.bind (g := fun _ => do assembled w r (← (contents w r).mapM (recur' active))) fun x' hx' => ?_
  cases hx'
  have hcontent := steady_content hG hb h active hr ht
  cases x with
  | none => exact hcontent
  | some hook =>
      obtain ⟨hhas, hnot⟩ := hcallable hook rfl
      refine .get fun v hv => ?_
      rw [isCallable_grows hhas (hb.grows.trans hv.grows), hnot]
      exact hcontent.mono hv

theorem steady_lower (hG : Graph w S) (hb : Ready w S b)
    (h : ∀ active, ∀ r ∈ S, b.Steady (recur active r) (recur' active r))
    (active : List Ref) (hr : r ∈ S) : b.Steady (lower recur active r) (lowerStep w recur' active r) := by
  refine .get fun v hv => ?_
  have hready := hb.mono hv
  have hv' := fun active r hr => (h active r hr).mono hv
  have hhas := hready.grows.has (hG.has r hr)
  have hname : v.Steady (Registry.qnameOf r) (.ok (Registry.typeName w r)) := by
    rw [← Registry.typeName_grows hG.sound (hG.has r hr) hready.grows]
    exact Registry.steady_qnameOf (hready.grows.sound hG.sound) hhas
  have hcode : v.Steady (do throw (.notSerializable (← Registry.qnameOf r)))
      (.error (.notSerializable (Registry.typeName w r)) : Except Fault Data) :=
    hname.bind (g := fun name => .error (.notSerializable name)) fun name _ => .throw v _
  rw [hready.grows.body (hG.has r hr), lowerStep]
  cases hbody : w.body r with
  | atom a =>
      have hu := (isUnhooked_grows (hG.has r hr) hready.grows).trans (hG.values r hr a hbody)
      exact steady_atomData hready.deep hhas ((hready.grows.body (hG.has r hr)).trans hbody) hu
  | box value t => exact hv' active value (hG.parts r hr _ (.inl (.content hbody)))
  | cls c =>
      simp only [hready.grows.info]
      exact .pure v _
  | routine code => exact hcode
  | bound x code => exact hcode
  | partialCall code => exact hcode
  | methodWrapper => exact hcode
  | _ =>
      have ht : isTracked w r = true := by simp only [isTracked, hbody]
      dsimp only
      split
      · exact hname.bind (g := fun name => .error (.cyclic name)) fun name _ => .throw v _
      · exact steady_reference hG hready hv' (r :: active) hr ht

theorem steady_within (hG : Graph w S) (hb : Ready w S b) (depth : Nat) (active : List Ref) (hr : r ∈ S) :
    b.Steady (within depth active r) (lowered w depth active r) := by
  induction depth generalizing active r with
  | zero => exact .throw b .nesting
  | succ depth ih => exact steady_lower hG hb (fun active r hr => ih active hr) active hr

theorem steady_encode {n : Nat} (hG : Graph w S) (hb : Ready w S (w.limited n)) (hr : r ∈ S) :
    (w.limited n).Steady (encode r) (lowered w n [] r) := by
  refine .get fun v hv => ?_
  rw [hv.nesting]
  exact (steady_within hG hb n [] hr).mono hv

end Simulation

/-! ## More depth lowers the same -/

/-- The second computation ends as the first, unless that one reaches the limit. -/
def Refines {α : Type} (x y : Except Fault α) : Prop := x ≠ .error .nesting → y = x

namespace Refines

variable {α β : Type} {x y : Except Fault α}

theorem refl (x : Except Fault α) : Refines x x := fun _ => rfl

theorem bind {f g : α → Except Fault β} (h : Refines x y) (hf : ∀ a, Refines (f a) (g a)) :
    Refines (x >>= f) (y >>= g) := by
  intro hne
  cases x with
  | error fault =>
      have hx : (.error fault : Except Fault α) ≠ .error .nesting := fun hn => hne (by cases hn; rfl)
      rw [h hx]
      rfl
  | ok a =>
      rw [h (by simp)]
      exact hf a hne

theorem mapM {l : List α} {f g : α → Except Fault β} (h : ∀ a, Refines (f a) (g a)) :
    Refines (l.mapM f) (l.mapM g) := by
  induction l with
  | nil => exact .refl _
  | cons a rest ih =>
      rw [List.mapM_cons, List.mapM_cons]
      exact (h a).bind fun _ => ih.bind fun _ => .refl _

end Refines

theorem refines_lowerStep {recur recur' : List Ref → Ref → Except Fault Data}
    (h : ∀ active r, Refines (recur active r) (recur' active r)) (active : List Ref) (r : Ref) :
    Refines (lowerStep w recur active r) (lowerStep w recur' active r) := by
  unfold lowerStep
  split
  case h_2 => exact h active _
  case h_8 =>
    split
    · exact .refl _
    · exact (Refines.mapM fun c => h _ c).bind fun _ => .refl _
  all_goals exact .refl _

theorem refines_lowered {n m : Nat} (hnm : n ≤ m) (active : List Ref) (r : Ref) :
    Refines (lowered w n active r) (lowered w m active r) := by
  induction n generalizing m active r with
  | zero => exact fun hne => absurd rfl hne
  | succ n ih =>
      cases m with
      | zero => cases hnm
      | succ m => exact refines_lowerStep (fun active r => ih (Nat.le_of_succ_le_succ hnm) active r) active r

/-- What some depth suffices for, the encoder settles on. -/
theorem settles_encode {depth : Nat} {x : Except Fault Data} (hG : Graph w S) (hr : r ∈ S)
    (h : lowered w depth [] r = x) (hx : x ≠ .error .nesting) : w.Settles (encode r) x := by
  filter_upwards [hG.eventually_ready, Filter.eventually_ge_atTop depth] with n hready hn
  have hsteady := steady_encode hG hready hr
  rw [refines_lowered hn [] r (by rwa [h]), h] at hsteady
  exact hsteady

/-- Where no depth suffices, the encoder runs into every limit. -/
theorem settles_encode_nesting (hG : Graph w S) (hr : r ∈ S) (h : ∀ depth, lowered w depth [] r = .error .nesting) :
    w.Settles (encode r) (.error .nesting) := by
  filter_upwards [hG.eventually_ready] with n hready
  have hsteady := steady_encode hG hready hr
  rw [h n] at hsteady
  exact hsteady

end Introspect.Lower
