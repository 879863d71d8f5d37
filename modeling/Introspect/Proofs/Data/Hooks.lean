import Introspect.Proofs.Data.Forms
import Introspect.Proofs.Dispatch.Relay
/-!
Objects whose class declares the method for forms. A method that answers a new list of attributes supplies the form
of a list.
-/
namespace Introspect.Lower

open World Dispatch

/-- The class of the object declares the function as the method for forms, and nothing stands before it. -/
structure HasMethod (w : World) (r : Ref) (i : Nat) (f : Function) : Prop where
  has : w.Has r
  noClass : ∀ c, r ≠ .cls c
  entry : ∃ holder, w.entryOf? (w.classOf r) formMethod = some (holder, .value (.routine (.function i)))
  own : ((w.dictionary? r).getD []).lookup formMethod = none
  function : w.function? i = some f
  wraps : f.wraps = none
  receiver : f.takesReceiver = true

variable {w b v u : World} {S : List Ref} {r : Ref} {i d : Nat} {f : Function} {names : List String} {xs : List Ref}

theorem HasMethod.grows (h : HasMethod b r i f) (hv : b.Grows v) : HasMethod v r i f where
  has := hv.has h.has
  noClass := h.noClass
  entry := by
    rw [hv.classOf h.has, entryOf?_congr hv.classes]
    exact h.entry
  own := by
    rw [hv.dictionary? h.has]
    exact h.own
  function := (hv.keeps.function? i).trans h.function
  wraps := h.wraps
  receiver := h.receiver

theorem attribute_method (h : HasMethod v r i f) :
    perform (d + 1) (.attribute r formMethod) v = .ok (.cell v.cells.size) (v.withMethod r i) := by
  obtain ⟨holder, he⟩ := h.entry
  rw [perform_attribute d h.noClass, instanceAttribute, run_get, he, h.own]
  rfl

/-- Asking for the form runs the method. -/
theorem supplied_method {x : Ref} (h : HasMethod v r i f) (hd : v.nesting = d + 2)
    (hbody : perform d (.eval ⟨some r, [], [], i⟩ f.body) (v.withMethod r i) = .ok x u) :
    supplied r v = .ok (some x) u := by
  have hattribute : ask.attribute? r formMethod v = .ok (some (.cell v.cells.size)) (v.withMethod r i) := by
    refine attribute?_eq (x := some (.cell v.cells.size)) ?_
    change perform v.nesting (.attribute r formMethod) v = _
    rw [hd]
    exact attribute_method h
  have hcell : (v.withMethod r i).body (.cell v.cells.size) = .bound r (.routine (.function i)) := by
    simp [World.body, withMethod]
  have hcallable : isCallable (v.withMethod r i) (.cell v.cells.size) = true := by rw [isCallable, hcell]
  have hcall : ask (.call (.cell v.cells.size) [] []) (v.withMethod r i) = .ok x u := by
    change perform v.nesting _ _ = _
    rw [hd, call_withMethod, callFunction_plain (v := v.withMethod r i) h.function h.wraps h.receiver]
    exact hbody
  rw [supplied, run_bind_ok hattribute]
  change (if isCallable (v.withMethod r i) (.cell v.cells.size) = true then
    some <$> ask (.call (.cell v.cells.size) [] []) else pure none) (v.withMethod r i) = _
  rw [if_pos hcallable]
  exact run_map_ok hcall

/-! ## Lists of attributes -/

/-- Each attribute is read from where it is stored. -/
def StoresEach (w : World) (r : Ref) (names : List String) (xs : List Ref) : Prop :=
  List.Forall₂ (fun name x => w.readsQuietly r name = true ∧ w.slotValue? r name = some x) names xs

theorem StoresEach.grows (h : StoresEach b r names xs) (hr : b.Has r) (hv : b.Grows v) : StoresEach v r names xs :=
  h.imp fun _ _ ⟨hq, hx⟩ => ⟨(readsQuietly_grows hr hv).trans hq, (slotValue?_grows hr hv).trans hx⟩

theorem eval_attributes {frame : Frame} (hc : ∀ c, r ≠ .cls c) (hframe : frame.receiver = some r)
    (h : StoresEach v r names xs) :
    perform (d + 3) (.eval frame (.list (names.map .attribute))) v = Act.list xs v := by
  have hall : evalAll (perform (d + 2)) frame (names.map .attribute) v = .ok xs v := by
    rw [evalAll]
    induction h with
    | nil => rfl
    | @cons name x names xs hname _ ih =>
        have hx : perform (d + 2) (.eval frame (.attribute name)) v = .ok x v := by
          change perform (d + 1) (.attribute (receiverOf frame) name) v = _
          rw [receiverOf, hframe, Option.getD_some, attribute_of_readsQuietly d hc hname.1, hname.2]
          rfl
        rw [List.map_cons, List.mapM_cons, run_bind_ok hx, run_bind_ok ih]
        rfl
  change (evalAll (perform (d + 2)) frame (names.map .attribute) >>= Act.list) v = _
  exact run_bind_ok hall

theorem steady_supplied_none (hd : 1 ≤ b.nesting) (hr : b.Has r) (hc : ∀ c, r ≠ .cls c) (h : isFormless b r = true) :
    b.Steady (supplied r) (.ok none) := by
  rw [isFormless, Bool.and_eq_true, Option.isNone_iff_eq_none] at h
  refine (steady_attribute? hd hr hc h.1).bind (g := fun _ => .ok none) fun x hx => ?_
  rw [h.2] at hx
  cases hx
  exact .pure b none

/-- The world with a new list. -/
def withList (w : World) (xs : List Ref) : World :=
  { w with cells := w.cells.push ⟨.native .list, .sequence xs, [], none⟩ }

theorem getElem?_withList : (withList w xs).cells[w.cells.size]? = some ⟨.native .list, .sequence xs, [], none⟩ :=
  Array.getElem?_push_size

theorem body_withList : (withList w xs).body (.cell w.cells.size) = .sequence xs := by
  rw [World.body, getElem?_withList]
  rfl

/-- A list has no method for forms. -/
theorem isFormless_withList : isFormless (withList w xs) (.cell w.cells.size) = true := by
  have hnative : (withList w xs).entryOf? (.native .list) formMethod = none := by
    rw [entryOf?_native (withList w xs) Session.initialWorld]
    decide
  have hclass : (withList w xs).classOf (.cell w.cells.size) = .native .list := by
    rw [World.classOf, getElem?_withList, Option.elim_some]
  simp only [isFormless, readsQuietly, slotValue?, hclass, hnative, body_withList, World.dictionary?, getElem?_withList,
    Option.getD_none, List.lookup_nil, Option.isNone_none, Bool.and_self]

theorem shows_withList (hd : 1 ≤ w.nesting) (hv : v.Leads w) (hS : ∀ x ∈ xs, x ∈ S) :
    Shows S (.container .list (xs.map .known)) v (withList w xs) [] (.cell w.cells.size) := by
  have hhas : (withList w xs).Has (.cell w.cells.size) := by simp [World.Has, withList]
  have hlater : ¬ v.Has (.cell w.cells.size) := fun h => Nat.lt_irrefl _ (hv.grows.has h)
  have hlist : IsContainer (withList w xs) (.cell w.cells.size) .list xs :=
    .items (by rw [isTracked, body_withList]) (fun pairs hp => by rw [body_withList] at hp; cases hp)
      (fun members hm => by rw [body_withList] at hm; cases hm) (by rw [items?, body_withList])
  refine ⟨⟨hhas, hlater, List.not_mem_nil⟩, ?_, xs, hlist, ?_⟩
  · exact steady_supplied_none hd hhas (fun c hc => by cases hc) isFormless_withList
  · rw [showAll_iff, List.forall₂_map_left_iff, List.forall₂_same]
    exact fun x hx => ⟨rfl, hS x hx⟩

/-- A method that answers a new list of attributes supplies the form of a list. -/
theorem supplies_list (hd : 5 ≤ b.nesting) (h : HasMethod b r i f) (hbody : f.body = .list (names.map .attribute))
    (hxs : StoresEach b r names xs) (hS : ∀ x ∈ xs, x ∈ S) :
    Supplies S b r (some (.container .list (xs.map .known))) := by
  intro v hv
  obtain ⟨d, hdepth⟩ := Nat.exists_eq_add_of_le' (hv.nesting ▸ hd)
  have hmethod : v.Leads (v.withMethod r i) := .alloc v _
  have hstores := hxs.grows h.has (hv.grows.trans hmethod.grows)
  have hlist := @eval_attributes (v.withMethod r i) r d names xs ⟨some r, [], [], i⟩ h.noClass rfl hstores
  rw [← hbody] at hlist
  have hrun := supplied_method (d := d + 3) (h.grows hv.grows) hdepth hlist
  have hnesting : 1 ≤ (v.withMethod r i).nesting := by
    rw [hmethod.nesting, hdepth]
    exact Nat.le_add_left 1 (d + 4)
  exact ⟨_, _, hmethod.trans (.alloc _ _), hrun, shows_withList hnesting hmethod hS⟩

end Introspect.Lower
