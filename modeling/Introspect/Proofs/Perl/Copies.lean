import Introspect.Proofs.Perl.Leaves
import Introspect.Proofs.World.Renaming
/-!
Terms of copies. A graph of references and a copy of it at other places are written alike where their types have one
name, whatever else the worlds hold.
-/
namespace Introspect

namespace World.Copies

open Dispatch

variable {ρ : Renaming} {w v : World} {S : List Ref} {r : Ref}

/-! ## Hooks -/

theorem isNativeHook (h : w.Copies ρ v S) (hr : r ∈ S) (key : String) :
    Dispatch.isNativeHook (v.entryOf? (v.classOf (r.rename ρ)) key) =
      Dispatch.isNativeHook (w.entryOf? (w.classOf r) key) := by
  rw [h.entryOf? hr]
  cases w.entryOf? (w.classOf r) key with
  | none => rfl
  | some found =>
      obtain ⟨holder, e⟩ := found
      cases e with
      | native n member => cases member <;> rfl
      | _ => rfl

theorem nativeHook? (h : w.Copies ρ v S) (hr : r ∈ S) (name : String) :
    Dispatch.nativeHook? v (r.rename ρ) name = Dispatch.nativeHook? w r name := by
  rw [Dispatch.nativeHook?, Dispatch.nativeHook?, h.entryOf? hr]
  cases w.entryOf? (w.classOf r) name with
  | none => rfl
  | some found =>
      obtain ⟨holder, e⟩ := found
      cases e with
      | native n member => cases member <;> rfl
      | _ => rfl

theorem declaredHook? (h : w.Copies ρ v S) (hr : r ∈ S) (name : String) :
    Dispatch.declaredHook? v (r.rename ρ) name =
      (Dispatch.declaredHook? w r name).map (Prod.map (ClassId.rename ρ) (Entry.rename ρ)) := by
  rw [Dispatch.declaredHook?, Dispatch.declaredHook?, h.entryOf? hr]
  cases w.entryOf? (w.classOf r) name with
  | none => rfl
  | some found =>
      obtain ⟨holder, e⟩ := found
      cases e <;> rfl

theorem hasNativeText (h : w.Copies ρ v S) (hr : r ∈ S) :
    Dispatch.hasNativeText v (r.rename ρ) = Dispatch.hasNativeText w r := by
  simp only [Dispatch.hasNativeText, isPlain, h.atom? hr, h.isNativeHook hr]

theorem atomDisplay (h : w.Copies ρ v S) (hr : r ∈ S) (a : Atom) :
    Dispatch.atomDisplay v (r.rename ρ) a = Dispatch.atomDisplay w r a := by
  have hobject : Dispatch.objectDisplay v (r.rename ρ) = Dispatch.objectDisplay w r := by
    simp only [Dispatch.objectDisplay, Dispatch.displayName, h.classOf hr, h.classes r hr _ List.mem_cons_self]
    rfl
  unfold Dispatch.atomDisplay
  rw [hobject]

theorem plainTextOf (h : w.Copies ρ v S) (hr : r ∈ S) (a : Atom) :
    Dispatch.plainTextOf v (r.rename ρ) a = Dispatch.plainTextOf w r a := by
  rw [Dispatch.plainTextOf, Dispatch.plainTextOf, h.nativeHook? hr, h.atomDisplay hr]

end World.Copies

namespace Perl

open World Dispatch

variable {ρ : Renaming} {w v b : World} {S : List Ref} {r : Ref}

/-! ## What is written without declared code -/

/-- No declared code takes part in writing the reference. -/
def isWrittenNatively (w : World) (r : Ref) : Bool :=
  match w.body r with
  | .atom (.number (.int _)) => hasNativeText w r && (declaredHook? w r "__int__").isNone
  | .atom (.number _) => hasNativeText w r
  | _ => !w.isObject r || w.StoresQuietly r

/-- The term of a plain value that no declared code takes part in. -/
def nativeTerm (w : World) (r : Ref) : Atom → Except Fault Term
  | .number (.int i) => contentOf (.number (.int i))
  | .number n => (fun s => .quoted s.toList) <$> plainTextOf w r (.number n)
  | a => contentOf a

theorem hasNativeText_of_isWrittenNatively {n : Number} (h : isWrittenNatively w r = true)
    (hn : w.body r = .atom (.number n)) : hasNativeText w r = true := by
  unfold isWrittenNatively at h
  rw [hn] at h
  cases n with
  | int i => exact (Bool.and_eq_true_iff.mp h).1
  | _ => exact h

theorem storesQuietly_of_isWrittenNatively (h : isWrittenNatively w r = true) (ho : w.isObject r = true) :
    w.StoresQuietly r := by
  unfold isWrittenNatively at h
  have ho' := ho
  unfold isObject at ho'
  cases hb : w.body r <;> simp_all

theorem nativeTerm_grows {a : Atom} (hr : w.Has r) (hv : w.Grows v) : nativeTerm v r a = nativeTerm w r a := by
  unfold nativeTerm
  split <;> simp only [plainTextOf_grows hr hv]

theorem isWrittenNatively_grows (hr : w.Has r) (hv : w.Grows v) (h : isWrittenNatively w r = true) :
    isWrittenNatively v r = true := by
  unfold isWrittenNatively at h ⊢
  rw [hv.body hr, hasNativeText_grows hr hv, declaredHook?_grows hr hv, isObject_grows hr hv]
  split at h
  · exact h
  · exact h
  · cases ho : w.isObject r with
    | false => rfl
    | true =>
        rw [ho] at h
        exact decide_eq_true ((of_decide_eq_true h).grows hv)

theorem steady_atomTerm_native {a : Atom} (hd : 2 ≤ b.nesting) (hr : b.Has r) (ha : b.body r = .atom a)
    (h : isWrittenNatively b r = true) : b.Steady (atomTerm r a) (nativeTerm b r a) := by
  cases a with
  | number n =>
      cases n with
      | int i =>
          have hhook : declaredHook? b r "__int__" = none := by
            unfold isWrittenNatively at h
            rw [ha] at h
            exact Option.isNone_iff_eq_none.mp (Bool.and_eq_true_iff.mp h).2
          exact steady_atomTerm_unhooked hd hr ha hhook
      | _ =>
          rw [nativeTerm, map_eq_pure_bind]
          · exact (steady_textOf hd hr ha (hasNativeText_of_isWrittenNatively h ha)).bind fun s _ =>
              .pure b (Term.quoted s.toList)
          · nofun
  | bool v => cases v <;> exact .pure b _
  | _ => exact .pure b _

theorem settles_atomTerm_native {a : Atom} (hr : w.Has r) (ha : w.body r = .atom a) (h : isWrittenNatively w r = true) :
    w.Settles (atomTerm r a) (nativeTerm w r a) := by
  refine Filter.eventually_atTop.mpr ⟨2, fun n hn => ?_⟩
  have hgrows := w.grows_limited n
  rw [← nativeTerm_grows hr hgrows]
  exact steady_atomTerm_native hn (hgrows.has hr) ((hgrows.body hr).trans ha) (isWrittenNatively_grows hr hgrows h)

theorem settles_textOf_native {n : Number} (hr : w.Has r) (hn : w.body r = .atom (.number n))
    (h : isWrittenNatively w r = true) : w.Settles (Dispatch.ask.textOf r) (plainTextOf w r (.number n)) := by
  refine Filter.eventually_atTop.mpr ⟨2, fun m hm => ?_⟩
  have hgrows := w.grows_limited m
  rw [← plainTextOf_grows hr hgrows]
  exact steady_textOf hm (hgrows.has hr) ((hgrows.body hr).trans hn)
    ((hasNativeText_grows hr hgrows).trans (hasNativeText_of_isWrittenNatively h hn))

theorem isWrittenNatively_rename (h : w.Copies ρ v S) (hr : r ∈ S) (hw : isWrittenNatively w r = true) :
    isWrittenNatively v (r.rename ρ) = true := by
  have hother (hw : (!w.isObject r || w.StoresQuietly r) = true) :
      (!v.isObject (r.rename ρ) || v.StoresQuietly (r.rename ρ)) = true := by
    rw [h.isObject hr]
    cases ho : w.isObject r with
    | false => rfl
    | true =>
        rw [ho] at hw
        exact decide_eq_true (h.storesQuietly hr (of_decide_eq_true hw))
  unfold isWrittenNatively at hw ⊢
  rw [h.body hr, h.hasNativeText hr, h.declaredHook? hr, Option.isNone_map]
  cases hb : w.body r with
  | atom a =>
      rw [hb] at hw
      cases a with
      | number n => cases n <;> exact hw
      | _ => exact hother hw
  | _ =>
      rw [hb] at hw
      exact hother hw

theorem nativeTerm_rename (h : w.Copies ρ v S) (hr : r ∈ S) (a : Atom) : nativeTerm v (r.rename ρ) a = nativeTerm w r a := by
  unfold nativeTerm
  split <;> simp only [h.plainTextOf hr]

/-! ## What is written of a copy -/

/-- The declared code that takes part in writing answers alike: what it makes of plain values, and what it shows of
objects. -/
structure HooksAgree (ρ : Renaming) (w v : World) (S : List Ref) : Prop where
  values : ∀ r ∈ S, isWrittenNatively w r = false → ∀ a, w.body r = .atom a →
    v.answer (atomTerm (r.rename ρ) a) = w.answer (atomTerm r a)
  numbers : ∀ r ∈ S, isWrittenNatively w r = false → ∀ n, w.body r = .atom (.number n) →
    v.answer (Dispatch.ask.textOf (r.rename ρ)) = w.answer (Dispatch.ask.textOf r)
  storage : ∀ r ∈ S, isWrittenNatively w r = false → w.isObject r = true →
    v.storage (r.rename ρ) = Pairs.rename ρ (w.storage r)

theorem hooksAgree_of_isWrittenNatively (h : ∀ r ∈ S, isWrittenNatively w r = true) : HooksAgree ρ w v S where
  values r hr hn := by rw [h r hr] at hn; cases hn
  numbers r hr hn := by rw [h r hr] at hn; cases hn
  storage r hr hn := by rw [h r hr] at hn; cases hn

theorem storage_rename (h : w.Copies ρ v S) (hhooks : HooksAgree ρ w v S) (hr : r ∈ S) (ho : w.isObject r = true) :
    v.storage (r.rename ρ) = Pairs.rename ρ (w.storage r) := by
  cases hnative : isWrittenNatively w r with
  | false => exact hhooks.storage r hr hnative ho
  | true =>
      have hquiet := storesQuietly_of_isWrittenNatively hnative ho
      rw [storage_eq (settles_fields hquiet), storage_eq (settles_fields (h.storesQuietly hr hquiet)), h.storedFields hr]

section Answers

variable (hG : Graph w S) (h : w.Copies ρ v S) (hhooks : HooksAgree ρ w v S) (hr : r ∈ S)

include hG h hhooks hr

theorem answer_atomTerm_rename {a : Atom} (ha : w.body r = .atom a) :
    v.answer (atomTerm (r.rename ρ) a) = w.answer (atomTerm r a) := by
  cases hnative : isWrittenNatively w r with
  | false => exact hhooks.values r hr hnative a ha
  | true =>
      have hhas := hG.has r hr
      have ha' : v.body (r.rename ρ) = .atom a := by rw [h.body hr, ha]; rfl
      rw [(settles_atomTerm_native hhas ha hnative).answer_eq, ← nativeTerm_rename h hr]
      exact (settles_atomTerm_native (h.has hr hhas) ha' (isWrittenNatively_rename h hr hnative)).answer_eq

theorem answer_textOf_rename {n : Number} (hn : w.body r = .atom (.number n)) :
    v.answer (Dispatch.ask.textOf (r.rename ρ)) = w.answer (Dispatch.ask.textOf r) := by
  cases hnative : isWrittenNatively w r with
  | false => exact hhooks.numbers r hr hnative n hn
  | true =>
      have hhas := hG.has r hr
      have hn' : v.body (r.rename ρ) = .atom (.number n) := by rw [h.body hr, hn]; rfl
      rw [(settles_textOf_native hhas hn hnative).answer_eq, ← h.plainTextOf hr]
      exact (settles_textOf_native (h.has hr hhas) hn' (isWrittenNatively_rename h hr hnative)).answer_eq

end Answers

/-! ## One step -/

/-- The active objects of a copy. -/
def Active.rename (ρ : Renaming) (active : Active) : Active := active.map (Prod.map (Ref.rename ρ) id)

theorem cons_rename {active : Active} {p : Path} :
    (r.rename ρ, p) :: active.rename ρ = Active.rename ρ ((r, p) :: active) := rfl

theorem lookup_rename (active : Active) (r : Ref) : (active.rename ρ).lookup (r.rename ρ) = active.lookup r := by
  rw [Active.rename, lookup_map Ref.rename_injective, Option.map_id, id]

section Step

variable {f g : Active → Path → Ref → Except Fault Term} {active : Active} {p : Path}

theorem writtenItems_rename {items : List Ref}
    (h : ∀ c ∈ items, ∀ q, g (active.rename ρ) q (c.rename ρ) = f active q c) (index : Nat) :
    writtenItems g (active.rename ρ) p index (items.map (Ref.rename ρ)) = writtenItems f active p index items := by
  induction items generalizing index with
  | nil => rfl
  | cons c rest ih =>
      rw [List.map_cons, writtenItems, writtenItems, h c List.mem_cons_self,
        ih fun c hc => h c (List.mem_cons_of_mem _ hc)]

theorem writtenEntries_rename {pairs : List (List Char × Ref)}
    (h : ∀ y ∈ pairs, ∀ q, g (active.rename ρ) q (y.2.rename ρ) = f active q y.2) :
    writtenEntries g (active.rename ρ) p (Pairs.rename ρ pairs) = writtenEntries f active p pairs := by
  induction pairs with
  | nil => rfl
  | cons y rest ih =>
      change writtenEntries g (active.rename ρ) p ((y.1, y.2.rename ρ) :: Pairs.rename ρ rest) = _
      rw [writtenEntries, writtenEntries, h y List.mem_cons_self, ih fun y hy => h y (List.mem_cons_of_mem _ hy)]

theorem writtenArray_rename {items : List Ref}
    (h : ∀ c ∈ items, ∀ q, g (active.rename ρ) q (c.rename ρ) = f active q c) :
    writtenArray g (active.rename ρ) p (items.map (Ref.rename ρ)) = writtenArray f active p items := by
  rw [writtenArray, writtenArray, writtenItems_rename h]

theorem writtenText_rename {c : Ref} (h : g (Active.rename ρ []) .root (c.rename ρ) = f [] .root c) :
    writtenText g (c.rename ρ) = writtenText f c := by
  rw [writtenText, writtenText, ← h]
  rfl

theorem byText_rename (pairs : List (List Char × Ref)) : byText (Pairs.rename ρ pairs) = Pairs.rename ρ (byText pairs) :=
  (List.map_mergeSort (r := fun a b : List Char × Ref => decide (¬ b.1 < a.1)) (f := Prod.map id (Ref.rename ρ))
    fun _ _ _ _ => rfl).symm

theorem writtenHash_rename {pairs : List (List Char × Ref)}
    (h : ∀ y ∈ pairs, ∀ q, g (active.rename ρ) q (y.2.rename ρ) = f active q y.2) :
    writtenHash g (active.rename ρ) p (Pairs.rename ρ pairs) = writtenHash f active p pairs := by
  rw [writtenHash, writtenHash, byText_rename, writtenEntries_rename fun y hy => h y (mem_byText.mp hy)]

theorem writtenFields_rename {fields : List (String × Ref)}
    (h : ∀ e ∈ fields, ∀ q, g (active.rename ρ) q (e.2.rename ρ) = f active q e.2) :
    writtenFields g (active.rename ρ) p (Pairs.rename ρ fields) = writtenFields f active p fields := by
  have hpairs : (Pairs.rename ρ fields).map (fun e => (quote e.1.toList, e.2)) =
      Pairs.rename ρ (fields.map fun e => (quote e.1.toList, e.2)) := by
    simp only [Pairs.rename, List.map_map]
    rfl
  rw [writtenFields, writtenFields, hpairs]
  refine writtenHash_rename fun y hy => ?_
  obtain ⟨e, he, rfl⟩ := List.mem_map.mp hy
  exact h e he

/-- Elements of a copy, each with a text of its own. -/
theorem mapM_rename {α : Type} {l : List α} {text text' : α → Except Fault (List Char)} {k k' : α → Ref}
    (htext : ∀ a ∈ l, text' a = text a) (hk : ∀ a ∈ l, k' a = (k a).rename ρ) :
    (l.mapM fun a => do return (← text' a, k' a)) =
      Pairs.rename ρ <$> l.mapM fun a => do return (← text a, k a) := by
  induction l with
  | nil => rfl
  | cons a rest ih =>
      have ih := ih (fun a ha => htext a (List.mem_cons_of_mem _ ha)) fun a ha => hk a (List.mem_cons_of_mem _ ha)
      rw [List.mapM_cons, List.mapM_cons, ih, htext a List.mem_cons_self, hk a List.mem_cons_self]
      cases text a with
      | error fault => rfl
      | ok s => cases rest.mapM fun a => do return (← text a, k a) <;> rfl

theorem writtenMembers_rename {items : List Ref} (hitems : ∀ c ∈ items, c ∈ S)
    (hfg : ∀ active p, ∀ c ∈ S, g (active.rename ρ) p (c.rename ρ) = f active p c) :
    writtenMembers g (active.rename ρ) p (items.map (Ref.rename ρ)) = writtenMembers f active p items := by
  rw [writtenMembers, writtenMembers, List.mapM_map]
  have hpairs : (items.mapM fun c => do return (← writtenText g (c.rename ρ), c.rename ρ)) =
      Pairs.rename ρ <$> items.mapM fun c => do return (← writtenText f c, c) :=
    mapM_rename (fun c hc => writtenText_rename (hfg [] .root c (hitems c hc))) fun _ _ => rfl
  simp only [Function.comp_def]
  rw [hpairs]
  cases hmade : items.mapM fun c => do return (← writtenText f c, c) with
  | error fault => rfl
  | ok pairs =>
      change writtenArray g (active.rename ρ) p ((byText (Pairs.rename ρ pairs)).map (·.2)) =
        writtenArray f active p ((byText pairs).map (·.2))
      have hmembers : (byText (Pairs.rename ρ pairs)).map (·.2) = ((byText pairs).map (·.2)).map (Ref.rename ρ) := by
        rw [byText_rename, Pairs.rename, List.map_map, List.map_map]
        rfl
      rw [hmembers]
      refine writtenArray_rename fun c hc q => hfg active q c ?_
      obtain ⟨y, hy, rfl⟩ := List.mem_map.mp hc
      exact forall_kept (P := (· ∈ S)) hmade hitems y (mem_byText.mp hy)

theorem typed_rename (h : w.Copies ρ v S) (hr : r ∈ S)
    (hname : Registry.typeName v (r.rename ρ) = Registry.typeName w r) : typed v (r.rename ρ) = typed w r := by
  have hblessed : unblessed.contains (v.classOf (r.rename ρ)) = unblessed.contains (w.classOf r) := by
    rw [h.classOf hr]
    cases w.classOf r with
    | native n => rfl
    | declared i => simp [unblessed, ClassId.rename]
  funext t
  rw [typed, typed, hblessed, hname]

theorem isLeaf_rename (h : w.Copies ρ v S) (hr : r ∈ S) : isLeaf v (r.rename ρ) = isLeaf w r := by
  rw [isLeaf, isLeaf, h.body hr]
  cases w.body r <;> rfl

variable (hG : Graph w S) (h : w.Copies ρ v S) (hhooks : HooksAgree ρ w v S)

include hG h hhooks

theorem leafTerm_rename (hr : r ∈ S) : leafTerm v (r.rename ρ) = leafTerm w r := by
  unfold leafTerm
  rw [h.body hr]
  cases hb : w.body r with
  | atom a => exact answer_atomTerm_rename hG h hhooks hr hb
  | cls c => simp only [Body.rename, h.classes r hr c (mem_classesOf_of_body hb), fullName_rename]
  | _ => rfl

variable (hfg : ∀ active p, ∀ c ∈ S, g (active.rename ρ) p (c.rename ρ) = f active p c)

include hfg

theorem writtenKey_rename {k : Ref} (hk : k ∈ S) : writtenKey v g (k.rename ρ) = writtenKey w f k := by
  have htext : writtenText g (k.rename ρ) = writtenText f k := writtenText_rename (hfg [] .root k hk)
  unfold writtenKey
  rw [h.atom? hk]
  cases ha : w.atom? k with
  | none => exact htext
  | some a =>
      cases a with
      | number n => simp only [answer_textOf_rename hG h hhooks hk (body_of_atom? ha)]
      | none => exact htext
      | _ => rfl

theorem writtenMapping_rename {entries : List (Ref × Ref)} (hentries : ∀ e ∈ entries, e.1 ∈ S ∧ e.2 ∈ S) :
    writtenMapping v g (active.rename ρ) p (entries.map (Prod.map (Ref.rename ρ) (Ref.rename ρ))) =
      writtenMapping w f active p entries := by
  rw [writtenMapping, writtenMapping, List.mapM_map]
  have hpairs : (entries.mapM fun e => do return (← writtenKey v g (e.1.rename ρ), e.2.rename ρ)) =
      Pairs.rename ρ <$> entries.mapM fun e => do return (← writtenKey w f e.1, e.2) :=
    mapM_rename (fun e he => writtenKey_rename hG h hhooks hfg (hentries e he).1) fun _ _ => rfl
  simp only [Function.comp_def, Prod.map]
  rw [hpairs]
  cases hmade : entries.mapM fun e => do return (← writtenKey w f e.1, e.2) with
  | error fault => rfl
  | ok pairs =>
      exact writtenHash_rename fun y hy q => hfg active q y.2
        (forall_kept (P := (· ∈ S)) hmade (fun e he => (hentries e he).2) y hy)

theorem writeStep_rename (hr : r ∈ S) (hname : Registry.typeName v (r.rename ρ) = Registry.typeName w r) :
    writeStep v g (active.rename ρ) p (r.rename ρ) = writeStep w f active p r := by
  have hlookup := lookup_rename (ρ := ρ) active r
  have hleaf := isLeaf_rename h hr
  have hbody := h.body hr
  have htyped := typed_rename h hr hname
  cases hl : active.lookup r with
  | some q =>
      rw [hl] at hlookup
      cases hw : isLeaf w r with
      | true => rw [writeStep_leaf _ _ hw, writeStep_leaf _ _ (hleaf.trans hw), leafTerm_rename hG h hhooks hr]
      | false => rw [writeStep_again hw hl, writeStep_again (hleaf.trans hw) hlookup]
  | none =>
      rw [hl] at hlookup
      cases shape w r with
      | leaf hw => rw [writeStep_leaf _ _ hw, writeStep_leaf _ _ (hleaf.trans hw), leafTerm_rename hG h hhooks hr]
      | @box c t hb =>
          rw [hb] at hbody
          rw [writeStep_box hb hl, writeStep_box hbody hlookup, cons_rename,
            hfg _ (.target p) c (hG.parts r hr c (.inl (.content hb)))]
      | mapping hb =>
          rw [hb] at hbody
          rw [writeStep_mapping hb hl, writeStep_mapping hbody hlookup, htyped, cons_rename,
            writtenMapping_rename hG h hhooks hfg fun e he => ⟨hG.key hr hb he, hG.value hr hb he⟩]
      | members hb =>
          rw [hb] at hbody
          rw [writeStep_members hb hl, writeStep_members hbody hlookup, htyped, cons_rename,
            writtenMembers_rename (fun c hc => hG.member hr hb hc) hfg]
      | items hi =>
          have hitems := h.items? hr
          rw [hi] at hitems
          rw [writeStep_items hi hl, writeStep_items hitems hlookup, htyped, cons_rename,
            writtenArray_rename fun c hc q => hfg _ q c (hG.parts r hr c (.inl (.item hi hc)))]
      | fields ho =>
          rw [writeStep_fields ho hl, writeStep_fields ((h.isObject hr).trans ho) hlookup, htyped,
            storage_rename h hhooks hr ho, cons_rename,
            writtenFields_rename fun e he q => hfg _ q e.2 (hG.parts r hr e.2 (.inl (.field (n := e.1) ho he)))]

end Step

/-! ## A whole value -/

/-- A copy is written as its original where the types of both have the same names. -/
theorem write_rename (hG : Graph w S) (h : w.Copies ρ v S) (hhooks : HooksAgree ρ w v S)
    (hnames : ∀ c ∈ S, Registry.typeName v (c.rename ρ) = Registry.typeName w c) (depth : Nat) (active : Active) (p : Path)
    (hr : r ∈ S) : write v depth (active.rename ρ) p (r.rename ρ) = write w depth active p r := by
  induction depth generalizing active p r with
  | zero => rfl
  | succ depth ih =>
      exact writeStep_rename hG h hhooks (fun active p c hc => ih active p hc) hr (hnames r hr)

end Perl

end Introspect
