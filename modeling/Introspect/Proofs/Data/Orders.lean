import Introspect.Proofs.Data.Agreement
import Introspect.Proofs.Data.Forming
import Introspect.Proofs.Data.Hooks
import Introspect.Proofs.Reflect.Members
/-!
Lowering sets. Members stand in the order of what shows their data, and members that are shown alike are the same
data, so that the order a set holds its members in is lost. It only comes back by the texts that other code makes
of a set, as of a key.
-/
namespace Introspect.Lower

open World Dispatch

/-! ## Forms up to order -/

/-- Forms that differ in the order of the members of sets. -/
inductive Form.Like (S : List Ref) : Form → Form → Prop where
  | known {r} : r ∈ S → Like S (.known r) (.known r)
  | plain {d} : d.Throughout Data.HasForms → Like S (.plain d) (.plain d)
  | box {g g'} : Like S g g' → Like S (.box g) (.box g')
  | container {k gs gs'} : List.Forall₂ (Like S) gs gs' → Like S (.container k gs) (.container k gs')
  | set {gs gs' hs} : List.Forall₂ (Like S) gs gs' → gs'.Perm hs → Like S (.container .set gs) (.container .set hs)
  | supplier {g g'} : Like S g g' → Like S (.supplier g) (.supplier g')

variable {w v : World} {S : List Ref} {form form' : Ref → Option Form} {r : Ref} {active : List Ref}
variable {d : Data} {ds ds' es : List Data} {k : Kind} {g g' : Form} {gs gs' : List Form}

/-- Members agree with other members in any order, and so do the sets. -/
theorem agrees_set (h : List.Forall₂ Data.Agrees ds es) (hp : es.Perm ds') (hd : Kind.set.assemble ds = .ok d) :
    ∃ d', Kind.set.assemble ds' = .ok d' ∧ d.Agrees d' := by
  obtain ⟨sorted, hsorted, rfl⟩ := map_ok_iff.mp hd
  have hperm : (ds.map Data.plain).Perm (ds'.map Data.plain) := Data.Agrees.map_plain h ▸ hp.map _
  have hforms' : ∀ d ∈ ds', d.Throughout Data.HasForms := fun d hd =>
    Data.Agrees.forall_forms' h d (hp.mem_iff.mpr hd)
  obtain ⟨sorted', hsorted', hsame⟩ := byDisplay_perm (Data.Agrees.forall_forms h) hforms' hperm hsorted
  have hall {P : Data → Prop} {ds ds' : List Data} (hp : ds.Perm ds') : (∀ d ∈ ds, P d) ↔ ∀ d ∈ ds', P d :=
    forall_congr' fun d => by rw [hp.mem_iff]
  refine ⟨.list sorted', map_ok_iff.mpr ⟨sorted', hsorted', rfl⟩, .of_items hsame ?_ ?_ ?_⟩
  · rw [hall (perm_of_byDisplay hsorted), Data.Agrees.forall_exact h, hall hp, ← hall (perm_of_byDisplay hsorted')]
  · rw [hall (perm_of_byDisplay hsorted)]
    exact Data.Agrees.forall_forms h
  · rwa [hall (perm_of_byDisplay hsorted')]

theorem agrees_assemble (h : List.Forall₂ Data.Agrees ds ds') (hd : k.assemble ds = .ok d) :
    ∃ d', k.assemble ds' = .ok d' ∧ d.Agrees d' := by
  cases k with
  | list =>
      cases hd
      exact ⟨_, rfl, .list h⟩
  | set => exact agrees_set h (.refl ds') hd
  | dict keys =>
      cases hd
      exact ⟨_, rfl, .dict (Data.forall₂_ofEntries (Data.forall₂_zip keys h))⟩

/-! ## Worlds whose sets are in another order -/

/-- Two worlds that differ in the order of members, where that order shows neither in what plain values and keys
become, nor in the fields of objects, nor in the forms that objects supply. -/
structure Unordered (w v : World) (S : List Ref) (form form' : Ref → Option Form) : Prop where
  order : w.Rearranges v
  graph : FormGraph w S form
  graph' : FormGraph v S form'
  values : ∀ r ∈ S, ∀ a, w.body r = .atom a → ∀ d, w.Settles (atomData r a) (.ok d) →
    v.Settles (atomData r a) (.ok d) ∧ d.Throughout Data.HasForms
  keys : ∀ r ∈ S, form r = none → ∀ entries, w.body r = .mapping entries → ∀ e ∈ entries, ∀ k,
    w.Settles (key e.1) (.ok k) → v.Settles (key e.1) (.ok k)
  fields : ∀ r ∈ S, form r = none → w.isObject r = true → ∀ pairs,
    w.Settles (fields r) (.ok pairs) → v.Settles (fields r) (.ok pairs)
  forms : ∀ r ∈ S, isTracked w r = true → Option.Rel (Form.Like S) (form r) (form' r)

/-- Two ways to make data of forms, the second of which makes data that agree of forms up to order. -/
def Indifferent (S : List Ref) (recur recur' : List Ref → Form → Except Fault Data) : Prop :=
  ∀ active g g' d, Form.Like S g g' → recur active g = .ok d → ∃ d', recur' active g' = .ok d' ∧ d.Agrees d'

section Step

variable {recur recur' : List Ref → Form → Except Fault Data}

theorem Indifferent.mapM (h : Indifferent S recur recur') (hgs : List.Forall₂ (Form.Like S) gs gs')
    (hds : gs.mapM (recur active) = .ok ds) : ∃ ds', gs'.mapM (recur' active) = .ok ds' ∧ List.Forall₂ Data.Agrees ds ds' := by
  induction hgs generalizing ds with
  | nil =>
      cases hds
      exact ⟨[], rfl, .nil⟩
  | @cons g g' gs gs' hg _ ih =>
      rw [List.mapM_cons] at hds
      obtain ⟨d, hd, hds⟩ := bind_ok_iff.mp hds
      obtain ⟨rest, hrest, hds⟩ := bind_ok_iff.mp hds
      cases hds
      obtain ⟨d', hd', hagrees⟩ := h active g g' d hg hd
      obtain ⟨rest', hrest', hall⟩ := ih hrest
      refine ⟨d' :: rest', ?_, .cons hagrees hall⟩
      rw [List.mapM_cons, hd', hrest']
      rfl

theorem Indifferent.container (h : Indifferent S recur recur') {k' : Kind}
    (hl : Form.Like S (.container k gs) (.container k' gs')) (hd : gs.mapM (recur active) >>= k.assemble = .ok d) :
    ∃ d', gs'.mapM (recur' active) >>= k'.assemble = .ok d' ∧ d.Agrees d' := by
  obtain ⟨ds, hds, hd⟩ := bind_ok_iff.mp hd
  cases hl with
  | container hgs =>
      obtain ⟨ds', hds', hall⟩ := h.mapM hgs hds
      obtain ⟨d', hd', hagrees⟩ := agrees_assemble hall hd
      exact ⟨d', bind_ok_iff.mpr ⟨ds', hds', hd'⟩, hagrees⟩
  | set hgs hp =>
      obtain ⟨es, hes, hall⟩ := h.mapM hgs hds
      obtain ⟨ds', hds', hperm⟩ := mapM_perm hp hes
      obtain ⟨d', hd', hagrees⟩ := agrees_set hall hperm hd
      exact ⟨d', bind_ok_iff.mpr ⟨ds', hds', hd'⟩, hagrees⟩

end Step

theorem isTracked_rearranged (h : w.Rearranges v) (r : Ref) : isTracked v r = isTracked w r := by
  cases hb : w.body r with
  | members items =>
      obtain ⟨items', hb', -⟩ := h.body_members hb
      rw [isTracked, isTracked, hb, hb']
  | _ => rw [isTracked, isTracked, h.body_eq (by rw [hb]; simp)]

namespace Unordered

variable (h : Unordered w v S form form')
include h

theorem publicStorage (hr : r ∈ S) (hf : form r = none) (ho : w.isObject r = true) :
    publicStorage v r = publicStorage w r := by
  obtain ⟨pairs, hpairs⟩ := h.graph.storage r hr hf ho
  rw [Lower.publicStorage, Lower.publicStorage, storage_eq hpairs, storage_eq (h.fields r hr hf ho pairs hpairs)]

/-- What is neither a mapping nor a set has the same contents under the same names. -/
theorem other (hr : r ∈ S) (ht : isTracked w r = true) (hf : form r = none)
    (hmap : ∀ entries, w.body r ≠ .mapping entries) (hset : ∀ members, w.body r ≠ .members members) :
    kindOf v r = kindOf w r ∧ contents v r = contents w r := by
  have hbody := h.order.body_eq hset
  have hitems : v.items? r = w.items? r := h.order.outline.items? r
  cases hi : w.items? r with
  | some items =>
      rw [hi] at hitems
      unfold isTracked at ht
      unfold kindOf contents
      rw [hbody, hitems, hi]
      cases hb : w.body r <;> simp_all
  | none =>
      have hstorage := h.publicStorage hr hf (isObject_of_tracked ht hmap hset hi)
      rw [hi] at hitems
      unfold isTracked at ht
      unfold kindOf contents
      rw [hbody, hitems, hi, hstorage]
      cases hb : w.body r <;> simp_all

theorem like_contents (hr : r ∈ S) (ht : isTracked w r = true) (hf : form r = none) :
    Form.Like S (.container (kindOf w r) ((contents w r).map .known)) (.container (kindOf v r) ((contents v r).map .known)) := by
  have hknown : List.Forall₂ (Form.Like S) ((contents w r).map .known) ((contents w r).map .known) := by
    rw [List.forall₂_same, List.forall_mem_map]
    exact fun c hc => .known (h.graph.parts r hr c (Traverses.part hc))
  by_cases hmap : ∃ entries, w.body r = .mapping entries
  · obtain ⟨entries, hb⟩ := hmap
    have hbody : v.body r = .mapping entries := (h.order.body_eq (by rw [hb]; simp)).trans hb
    have hkeys : (entries.map fun e => keyOf v e.1) = entries.map fun e => keyOf w e.1 := by
      refine List.map_congr_left fun e he => ?_
      obtain ⟨k, hk⟩ := h.graph.keys r hr hf entries hb e he
      rw [keyOf_eq hk, keyOf_eq (h.keys r hr hf entries hb e he k hk)]
    simp only [kindOf, contents, hb, hbody, hkeys] at hknown ⊢
    exact .container hknown
  by_cases hset : ∃ members, w.body r = .members members
  · obtain ⟨members, hb⟩ := hset
    obtain ⟨members', hbody, hp⟩ := h.order.body_members hb
    simp only [kindOf, contents, hb, hbody] at hknown ⊢
    exact .set hknown (hp.map _)
  push Not at hmap hset
  obtain ⟨hkind, hcontents⟩ := h.other hr ht hf hmap hset
  rw [hkind, hcontents]
  exact .container hknown

variable {recur recur' : List Ref → Form → Except Fault Data}

theorem known (hrecur : Indifferent S recur recur') (hr : r ∈ S) (hd : formedStep w form recur active (.known r) = .ok d) :
    ∃ d', formedStep v form' recur' active (.known r) = .ok d' ∧ d.Agrees d' := by
  have hbody := @World.Rearranges.body_eq w v r h.order
  cases shape w r with
  | @atom a hb =>
      have hsettled := settles_answer (h.graph.values r hr a hb)
      simp only [formedStep, hb] at hd
      rw [hd] at hsettled
      obtain ⟨hsettled', hforms⟩ := h.values r hr a hb d hsettled
      refine ⟨d, ?_, .refl hforms⟩
      simp only [formedStep, hbody (by rw [hb]; simp), hb]
      exact hsettled'.answer_eq
  | @cls id hb =>
      simp only [formedStep, hb] at hd
      cases hd
      refine ⟨_, ?_, .refl (Data.throughout_of_leaf rfl trivial)⟩
      simp only [formedStep, hbody (by rw [hb]; simp), hb, info_congr h.order.outline.classes]
  | code hcode =>
      unfold isCode at hcode
      cases hb : w.body r <;> simp_all [formedStep]
  | @box value t hb =>
      simp only [formedStep, hb] at hd
      simp only [formedStep, hbody (by rw [hb]; simp), hb]
      exact hrecur active _ _ d (.known (h.graph.parts r hr value (.inl (.content hb)))) hd
  | tracked ht =>
      have ht' : isTracked v r = true := (isTracked_rearranged h.order r).trans ht
      have hforms := h.forms r hr ht
      rw [formedStep_tracked ht] at hd
      rw [formedStep_tracked ht']
      split at hd
      · cases hd
      · rename_i hmem
        rw [if_neg hmem]
        rcases optionRel_cases hforms with ⟨hf, hf'⟩ | ⟨g, g', hf, hf', hg⟩
        · rw [hf] at hd
          rw [hf']
          exact hrecur.container (h.like_contents hr ht hf) hd
        · rw [hf] at hd
          rw [hf']
          exact hrecur _ g g' d hg hd

theorem step (hrecur : Indifferent S recur recur') : Indifferent S (formedStep w form recur) (formedStep v form' recur') := by
  intro active g g' d hg hd
  cases hg with
  | known hr => exact h.known hrecur hr hd
  | plain hforms =>
      cases hd
      exact ⟨_, rfl, .refl hforms⟩
  | box hg | supplier hg => exact hrecur active _ _ d hg hd
  | container hgs => exact hrecur.container (.container hgs) hd
  | set hgs hp => exact hrecur.container (.set hgs hp) hd

theorem formed (depth : Nat) : Indifferent S (formed w form depth) (formed v form' depth) := by
  induction depth with
  | zero => exact fun _ _ _ _ _ hd => by cases hd
  | succ depth ih => exact h.step ih

end Unordered

/-! ## Graphs that no other declared code has a part in -/

/-- References with all their parts, where nothing runs declared code but objects that are asked for their forms. -/
structure Quiet (w : World) (S : List Ref) (form : Ref → Option Form) : Prop where
  sound : w.registry.Sound
  has : ∀ r ∈ S, w.Has r
  parts : ∀ r ∈ S, ∀ c ∈ w.parts r, c ∈ S
  stores : ∀ r ∈ S, w.isObject r = true → w.StoresQuietly r
  quiet : ∀ r ∈ S, (form r).isSome = true ∧ isTracked w r = true ∨ isQuiet w r = true
  forms : ∀ r ∈ S, (form r).isSome = true → ∀ᶠ n in Filter.atTop, Supplies S (w.limited n) r (form r)

namespace Quiet

variable {a : Atom} {entries : List (Ref × Ref)} (h : Quiet w S form)
include h

theorem closed : w.Closed S := .of_parts h.sound h.has h.stores h.parts

theorem isQuiet (hr : r ∈ S) (hf : form r = none) : isQuiet w r = true :=
  (h.quiet r hr).resolve_left fun hsome => by
    rw [hf] at hsome
    cases hsome.1

theorem settles_atomData (hr : r ∈ S) (ha : w.body r = .atom a) : w.Settles (atomData r a) (.ok (plainData a)) := by
  have hquiet := (h.quiet r hr).resolve_left fun hsome => by
    rw [isTracked, ha] at hsome
    cases hsome.2
  rw [Lower.isQuiet, ha] at hquiet
  refine Filter.eventually_atTop.mpr ⟨1, fun n hn => steady_atomData hn ((w.grows_limited n).has (h.has r hr)) ha ?_⟩
  exact (isUnhooked_grows (h.has r hr) (w.grows_limited n)).trans hquiet

theorem exists_label (hr : r ∈ S) (hf : form r = none) (hb : w.body r = .mapping entries) {e : Ref × Ref}
    (he : e ∈ entries) : ∃ k, label? w e.1 = some k := by
  have hquiet := h.isQuiet hr hf
  simp only [Lower.isQuiet, hb, Bool.and_eq_true, List.all_eq_true] at hquiet
  exact Option.isSome_iff_exists.mp (hquiet.2 e he)

theorem graph : FormGraph w S form where
  toClosed := h.closed
  values r hr a ha := ⟨_, h.settles_atomData hr ha⟩
  forms r hr ht := by
    cases hf : form r with
    | some g => exact hf ▸ h.forms r hr (by rw [hf]; rfl)
    | none =>
        refine Filter.eventually_atTop.mpr ⟨1, fun n hn => ?_⟩
        have hquiet := isFormless_of_isQuiet (h.isQuiet hr hf) ht
        refine steady_supplied_none hn ((w.grows_limited n).has (h.has r hr)) (fun c hc => ?_) ?_
        · rw [hc] at ht
          cases ht
        · have hgrows := w.grows_limited n
          rwa [isFormless, readsQuietly_grows (h.has r hr) hgrows, slotValue?_grows (h.has r hr) hgrows]
  keys r hr hf entries hb e he := by
    obtain ⟨k, hk⟩ := h.exists_label hr hf hb he
    exact ⟨k, settles_key (h.has _ (h.closed.parts r hr _ (.inr (.key (v := e.2) hb he)))) hk⟩
  storage r hr hf ho := ⟨_, settles_fields (h.stores r hr ho)⟩

end Quiet

/-- Where nothing else is run, the order of members does not show. -/
theorem unordered_of_quiet (h : w.Rearranges v) (hw : Quiet w S form) (hv : Quiet v S form')
    (hvalues : ∀ r ∈ S, ∀ a, w.body r = .atom a → (plainData a).Throughout Data.HasForms)
    (hforms : ∀ r ∈ S, isTracked w r = true → Option.Rel (Form.Like S) (form r) (form' r)) :
    Unordered w v S form form' where
  order := h
  graph := hw.graph
  graph' := hv.graph
  values r hr a ha d hd := by
    have ha' : v.body r = .atom a := (h.body_eq (by rw [ha]; simp)).trans ha
    cases (hw.settles_atomData hr ha).unique hd
    exact ⟨hv.settles_atomData hr ha', hvalues r hr a ha⟩
  keys r hr hf entries hb e he k hk := by
    obtain ⟨k', hk'⟩ := hw.exists_label hr hf hb he
    have hkey := hw.has _ (hw.closed.parts r hr _ (.inr (.key (v := e.2) hb he)))
    cases (settles_key hkey hk').unique hk
    refine settles_key (h.outline.has hkey) ?_
    rwa [label?, h.outline.atom?]
  fields r hr hf ho pairs hp := by
    rw [← (settles_fields (hw.stores r hr ho)).unique hp, ← h.storedFields ho]
    exact settles_fields (h.outline.storesQuietly (hw.stores r hr ho))
  forms := hforms

/-! ## Texts -/

theorem settles_render (render : Data → Except Fault String) (hd : w.Settles (encode r) (.ok d)) :
    w.Settles (do Act.liftExcept (render (← encode r))) (render d) :=
  hd.mono fun n hn => hn.bind fun d' _ => steady_liftExcept (w.limited n) (render d')

/-- Members of sets may stand in any order: what is lowered stays the same up to the classes of texts, and so does
all that is written of it. A writer of documents shows no more than that since it refuses texts of derived classes. -/
theorem encoders_agree_unordered {dump : Data → Except Fault String} (hdump : Yaml.IsDumper dump)
    (h : Unordered w v S form form') (hr : r ∈ S) (hd : w.Settles (encode r) (.ok d)) :
    ∃ d', v.Settles (encode r) (.ok d') ∧ d'.plain = d.plain ∧ (d.Throughout Data.IsExact → d' = d) ∧
      (∀ indent s, v.Settles (Handle.jsonText indent r) (.ok s) ↔ w.Settles (Handle.jsonText indent r) (.ok s)) ∧
      ∀ s, v.Settles (Handle.yamlTextBy dump r) (.ok s) ↔ w.Settles (Handle.yamlTextBy dump r) (.ok s) := by
  obtain ⟨depth, hformed⟩ := (settles_encode_ok_iff h.graph hr).mp hd
  obtain ⟨d', hformed', hagrees⟩ := h.formed depth [] _ _ d (.known hr) hformed
  have hd' : v.Settles (encode r) (.ok d') := (settles_encode_ok_iff h.graph' hr).mpr ⟨depth, hformed'⟩
  refine ⟨d', hd', hagrees.plain.symm, hagrees.eq, fun indent s => ?_, fun s => ?_⟩
  · have hw := settles_render (Json.render indent) hd
    have hv := settles_render (Json.render indent) hd'
    rw [← Json.render_plain, ← hagrees.plain, Json.render_plain] at hv
    exact ⟨fun h => (hv.unique h) ▸ hw, fun h => (hw.unique h) ▸ hv⟩
  · have hw := settles_render dump hd
    have hv := settles_render dump hd'
    constructor
    · intro h
      have hsame := hagrees.eq (hagrees.exactness.mpr (hdump.refuses (hv.unique h)))
      rw [← hsame, hv.unique h] at hw
      exact hw
    · intro h
      have hsame := hagrees.eq (hdump.refuses (hw.unique h))
      rw [hsame, hw.unique h] at hv
      exact hv

/-- A set of two objects, of which one declares the method for forms, and a set that both of them lead to. -/
def gathering (swapped : Bool) : World :=
  { Session.initialWorld with
    classes := #[programClass "Part" [.declared 0, .native .object] [],
      programClass "Group" [.declared 1, .native .object] [(formMethod, .value (.routine (.function 0)))]]
    functions := #[⟨formMethod, .list (["parts"].map .attribute), true, none, false, false⟩]
    cells := #[cellOf .set (.members (if swapped then [.cell 2, .cell 1] else [.cell 1, .cell 2])),
      ⟨.declared 1, .nothing, [], some [("parts", .cell 3)]⟩, ⟨.declared 0, .nothing, [], some [("size", intRef 8)]⟩,
      cellOf .frozenset (.members (if swapped then [intRef 8, intRef 0] else [intRef 0, intRef 8]))] }

def gatheringRefs : List Ref := [.cell 0, .cell 1, .cell 2, .cell 3, intRef 0, intRef 8]

def gatheringForm (r : Ref) : Option Form :=
  if r = .cell 1 then some (.container .list ([.cell 3].map .known)) else none

theorem rearranges_gathering : (gathering false).Rearranges (gathering true) where
  rest := rfl
  cells
    | 0 | 3 => .some ⟨rfl, .swap ..⟩
    | 1 | 2 => .some (.refl _)
    | _ + 4 => .none

theorem quiet_gathering (swapped : Bool) : Quiet (gathering swapped) gatheringRefs gatheringForm where
  sound := Registry.sound_empty
  has := by cases swapped <;> decide
  parts := by cases swapped <;> decide
  stores := by cases swapped <;> decide
  quiet := by cases swapped <;> decide
  forms r hr hf := by
    obtain rfl : r = .cell 1 := by
      by_contra hne
      rw [gatheringForm, if_neg hne] at hf
      cases hf
    have hmethod : HasMethod (gathering swapped) (.cell 1) 0 _ :=
      ⟨(by cases swapped <;> decide), fun c hc => (by cases hc), ⟨.declared 1, rfl⟩, rfl, rfl, rfl, rfl⟩
    have hstores : StoresEach (gathering swapped) (.cell 1) ["parts"] [.cell 3] := .cons ⟨rfl, rfl⟩ .nil
    refine Filter.eventually_atTop.mpr ⟨5, fun n hn => ?_⟩
    have hgrows := (gathering swapped).grows_limited n
    exact supplies_list hn (hmethod.grows hgrows) rfl (hstores.grows hmethod.has hgrows) (by decide)

theorem unordered_gathering : Unordered (gathering false) (gathering true) gatheringRefs gatheringForm gatheringForm := by
  refine unordered_of_quiet rearranges_gathering (quiet_gathering false) (quiet_gathering true) ?_ ?_
  · intro r hr a ha
    simp only [gatheringRefs, List.mem_cons, List.not_mem_nil, or_false] at hr
    rcases hr with rfl | rfl | rfl | rfl | rfl | rfl <;> cases ha <;> exact Data.throughout_of_leaf rfl trivial
  · intro r _ _
    by_cases hr : r = .cell 1
    · rw [hr]
      exact .some (.container (.cons (.known (by decide)) .nil))
    · rw [gatheringForm, if_neg hr]
      exact .none

def gathered : Data := .list [.list [.list [.int 0, .int 8]], .dict [(.plain "size", .int 8)]]

theorem formed_gathering : formed (gathering false) gatheringForm 5 [] (.known (.cell 0)) = .ok gathered := by
  have hquiet := quiet_gathering false
  have hint {r : Ref} {i : Int} (hr : r ∈ gatheringRefs) (hi : (gathering false).body r = .atom (Atom.int i)) (depth : Nat)
      (active : List Ref) : formed (gathering false) gatheringForm (depth + 1) active (.known r) = .ok (.int i) := by
    rw [formed, formedStep, hi]
    exact (hquiet.settles_atomData hr hi).answer_eq
  have hset : formed (gathering false) gatheringForm 2 [.cell 1, .cell 0] (.known (.cell 3)) = .ok (.list [.int 0, .int 8]) := by
    have hsorted : byDisplay [.int 0, .int 8] = .ok [.int 0, .int 8] := byDisplay_of_pairwise ["0", "8"] rfl (by decide)
    refine formed_container rfl (by decide) rfl (.cons (hint (by decide) rfl 0 _) (.cons (hint (by decide) rfl 0 _) .nil)) ?_
    exact congrArg (Data.list <$> ·) hsorted
  have hgroup : formed (gathering false) gatheringForm 4 [.cell 0] (.known (.cell 1)) = .ok (.list [.list [.int 0, .int 8]]) := by
    have hlist : formed (gathering false) gatheringForm 3 [.cell 1, .cell 0] (.container .list [.known (.cell 3)]) =
        .ok (.list [.list [.int 0, .int 8]]) :=
      bind_ok_iff.mpr ⟨[.list [.int 0, .int 8]], mapM_ok_iff.mpr (.cons hset .nil), rfl⟩
    rw [formed, formedStep_tracked rfl, if_neg (by decide)]
    exact hlist
  have hpart : formed (gathering false) gatheringForm 4 [.cell 0] (.known (.cell 2)) = .ok (.dict [(.plain "size", .int 8)]) := by
    have hstorage : publicStorage (gathering false) (.cell 2) = [("size", intRef 8)] := by
      rw [publicStorage, storage_eq (settles_fields (hquiet.stores (.cell 2) (by decide) rfl))]
      decide +kernel
    have hcontents : contents (gathering false) (.cell 2) = [intRef 8] := by
      change (publicStorage (gathering false) (.cell 2)).map (·.2) = _
      rw [hstorage]
      rfl
    have hkind : kindOf (gathering false) (.cell 2) = .dict [.plain "size"] := by
      change Kind.dict ((publicStorage (gathering false) (.cell 2)).map fun e => .plain e.1) = _
      rw [hstorage]
      rfl
    have hassembled : (kindOf (gathering false) (.cell 2)).assemble [.int 8] = .ok (.dict [(.plain "size", .int 8)]) := by
      rw [hkind]
      rfl
    refine formed_container rfl (by decide) rfl ?_ hassembled
    rw [hcontents]
    exact .cons (hint (by decide) rfl 2 _) .nil
  have hsorted : byDisplay [.list [.list [.int 0, .int 8]], .dict [(.plain "size", .int 8)]] =
      .ok [.list [.list [.int 0, .int 8]], .dict [(.plain "size", .int 8)]] :=
    byDisplay_of_pairwise ["[[0, 8]]", "\x7b'size': 8\x7d"] rfl (by decide)
  refine formed_container rfl (by decide) rfl (.cons hgroup (.cons hpart .nil)) ?_
  exact congrArg (Data.list <$> ·) hsorted

theorem encoders_agree_gathering :
    (gathering false).Settles (encode (.cell 0)) (.ok gathered) ∧ (gathering true).Settles (encode (.cell 0)) (.ok gathered) ∧
    (gathering true).Settles (Handle.yamlText (.cell 0)) (.ok "---\n- - - 0\n    - 8\n- size: 8\n") := by
  have hd := (settles_encode_ok_iff (quiet_gathering false).graph (by decide)).mpr ⟨5, formed_gathering⟩
  obtain ⟨d', hd', -, hsame, -, hyaml⟩ :=
    encoders_agree_unordered Yaml.isDumper_render unordered_gathering (by decide) hd
  have hwritten : Yaml.render gathered = .ok "---\n- - - 0\n    - 8\n- size: 8\n" := by decide +kernel
  refine ⟨hd, ?_, (hyaml _).mpr (hwritten ▸ settles_render Yaml.render hd)⟩
  rwa [hsame (by decide)] at hd'

/-- A mapping with a set for its key. -/
def keyed (swapped : Bool) : World :=
  { Session.initialWorld with
    cells := #[cellOf .dict (.mapping [(.cell 1, intRef 1)]),
      cellOf .frozenset (.members (if swapped then [intRef 8, intRef 0] else [intRef 0, intRef 8]))] }

theorem rearranges_keyed : (keyed false).Rearranges (keyed true) where
  rest := rfl
  cells
    | 0 => .some (.refl _)
    | 1 => .some ⟨rfl, .swap ..⟩
    | _ + 2 => .none

/-- The text of a set shows the order of its members, and a key is such a text. -/
theorem encode_keyed : (keyed false).Rearranges (keyed true) ∧
    (∃ w', encode (.cell 0) (keyed false) = .ok (.dict [(.plain "frozenset(\x7b0, 8\x7d)", .int 1)]) w') ∧
    ∃ w', encode (.cell 0) (keyed true) = .ok (.dict [(.plain "frozenset(\x7b8, 0\x7d)", .int 1)]) w' :=
  ⟨rearranges_keyed, ⟨_, rfl⟩, ⟨_, rfl⟩⟩

end Introspect.Lower
