import Introspect.Proofs.Reflect.Order
import Introspect.Proofs.World.Keeping
/-!
What the fields of an object cover. Slots are found by the names that classes list, and a name leads to the first entry
along the ancestry: a slot that is stored under another key, or behind another entry, is not shown.
-/
namespace Introspect.World

/-- Where an object stores a value: in a slot of a class, or in its attribute dictionary. -/
inductive Place where
  | slot (owner : ClassId) (key : String)
  | attribute (name : String)
deriving DecidableEq

def attributes (w : World) (r : Ref) : List (String × Ref) := (w.dictionary? r).getD []

def stored? (w : World) (r : Ref) : Place → Option Ref
  | .slot owner key => w.slot? r owner key
  | .attribute name => (w.attributes r).lookup name

/-- A name under which the fields show what is stored in a place. -/
def ShowsAs (w : World) (r : Ref) (name : String) : Place → Prop
  | .slot owner key => name ∈ w.slotNames (w.classOf r) ∧ (w.attributes r).lookup name = none ∧
      w.entryOf? (w.classOf r) name = some (owner, .slot key)
  | .attribute name' => name' = name

def IsShown (w : World) (r : Ref) (place : Place) : Prop := ∃ name, w.ShowsAs r name place

/-- What an entry gives to all instances: a value that does not bind. -/
def constant? (w : World) : Entry → Option Ref
  | .value f => if Dispatch.binds w f then none else some f
  | .static f => some f
  | _ => none

/-- A class gives the value under the name of a slot. -/
def Replaces (w : World) (r : Ref) (name : String) (value : Ref) : Prop :=
  name ∈ w.slotNames (w.classOf r) ∧ (w.attributes r).lookup name = none ∧
    ∃ holder e, w.entryOf? (w.classOf r) name = some (holder, e) ∧ w.constant? e = some value

/-- What reading a name answers: a slot comes before the attribute dictionary, and that before a value of a class. -/
def nameValue? (w : World) (r : Ref) (name : String) : Option Ref :=
  match w.entryOf? (w.classOf r) name with
  | some (holder, .slot key) => w.slot? r holder key
  | some (_, e) => ((w.attributes r).lookup name).or (w.constant? e)
  | none => (w.attributes r).lookup name

/-- The name leads to a slot, to a value of a class, or to nothing that the class has: reading it runs no code and makes
no object. -/
def readsStored (w : World) (c : ClassId) (name : String) : Bool :=
  match w.entryOf? c name with
  | some (_, .slot _) => true
  | some (_, e) => (w.constant? e).isSome
  | none => true

/-- An instance whose slots are all read without running code; it may hold contents of any kind besides, but is no bound
operation, which has the attributes of another. -/
structure StoresOpenly (w : World) (r : Ref) : Prop where
  has : w.Has r
  noClass : ∀ c, r ≠ .cls c
  unbound : ∀ x f, w.body r ≠ .bound x f
  reads : ∀ name ∈ w.slotNames (w.classOf r), w.readsStored (w.classOf r) name = true
  entries : w.HoldsEntries (w.classOf r)
  distinct : Pairs.Distinct (w.attributes r)

/-- The fields of such an object. -/
def shownFields (w : World) (r : Ref) : List (String × Ref) :=
  Pairs.putAll (foundAmong (w.nameValue? r) (w.slotNames (w.classOf r))) (w.attributes r)

variable {w b v : World} {r : Ref} {name : String} {place : Place} {value : Ref}

theorem holdsEntry_of_entryOf? {c holder : ClassId} {e : Entry} (hh : w.HoldsEntries c)
    (he : w.entryOf? c name = some (holder, e)) : w.HoldsEntry e := by
  obtain ⟨hmem, hentry⟩ := mem_of_entryAmong? he
  exact hh holder hmem (name, e) (Pairs.mem_of_lookup hentry)

/-! ## Reading -/

theorem constant?_grows {e : Entry} (he : w.HoldsEntry e) (hv : w.Grows v) : v.constant? e = w.constant? e := by
  cases e with
  | value f =>
      have hbinds : Dispatch.binds v f = Dispatch.binds w f := by simp only [Dispatch.binds, hv.body he.1]
      rw [constant?, constant?, hbinds]
  | _ => rfl

theorem holdsEntry_grows {e : Entry} (he : w.HoldsEntry e) (hv : w.Grows v) : v.HoldsEntry e := by
  cases e with
  | value f | classLevel f | static f =>
      exact ⟨hv.has he.1, fun x g hb => hv.has (he.2 x g ((hv.body he.1).symm.trans hb))⟩
  | _ => trivial

theorem attributes_grows (hr : w.Has r) (hv : w.Grows v) : v.attributes r = w.attributes r := by
  rw [attributes, hv.dictionary? hr, attributes]

theorem readsStored_grows {c : ClassId} (hh : w.HoldsEntries c) (hv : w.Grows v) :
    v.readsStored c name = w.readsStored c name := by
  rw [readsStored, hv.entryOf?, readsStored]
  cases he : w.entryOf? c name with
  | none => rfl
  | some found =>
      obtain ⟨holder, e⟩ := found
      have hconstant := constant?_grows (holdsEntry_of_entryOf? hh he) hv
      cases e with
      | slot key => rfl
      | _ => exact congrArg Option.isSome hconstant

theorem StoresOpenly.grows (h : w.StoresOpenly r) (hv : w.Grows v) : v.StoresOpenly r where
  has := hv.has h.has
  noClass := h.noClass
  unbound x f hb := h.unbound x f ((hv.body h.has).symm.trans hb)
  reads name hn := by
    rw [hv.classOf h.has, hv.slotNames] at hn
    rw [hv.classOf h.has, readsStored_grows h.entries hv]
    exact h.reads name hn
  entries a ha p hp := by
    rw [hv.classOf h.has, ancestry_congr hv.classes] at ha
    rw [hv.info] at hp
    exact holdsEntry_grows (h.entries a ha p hp) hv
  distinct := (attributes_grows h.has hv).symm ▸ h.distinct

theorem nameValue?_grows (h : w.StoresOpenly r) (hv : w.Grows v) : v.nameValue? r name = w.nameValue? r name := by
  rw [nameValue?, hv.classOf h.has, hv.entryOf?, attributes_grows h.has hv, nameValue?]
  cases he : w.entryOf? (w.classOf r) name with
  | none => rfl
  | some found =>
      obtain ⟨holder, e⟩ := found
      have hconstant := constant?_grows (holdsEntry_of_entryOf? h.entries he) hv
      cases e with
      | slot key => exact hv.slot? h.has holder key
      | _ => exact congrArg ((w.attributes r).lookup name).or hconstant

/-- A value of a class is given to an instance as it is. -/
theorem bindEntry_constant (more : Ask) (r : Ref) (cls holder : ClassId) (name : String) {e : Entry}
    (he : (b.constant? e).isSome = true) :
    Dispatch.bindEntry more (some r) cls holder name e b =
      ending ((b.constant? e).elim (.error .attributeError) .ok) b := by
  cases e with
  | value f =>
      rw [constant?] at he ⊢
      split at he
      · cases he
      · rename_i hbinds
        rw [Dispatch.bindEntry, run_get, if_neg hbinds, if_neg hbinds]
        rfl
  | static f => rfl
  | _ => cases he

/-- Reading leaves the world as it is. -/
theorem attribute_of_readsStored (d : Nat) (h : b.StoresOpenly r) (hn : name ∈ b.slotNames (b.classOf r)) :
    Dispatch.perform (d + 1) (.attribute r name) b =
      ending ((b.nameValue? r name).elim (.error .attributeError) .ok) b := by
  have hreads := h.reads name hn
  unfold readsStored at hreads
  unfold nameValue? attributes
  cases he : b.entryOf? (b.classOf r) name with
  | none => exact attribute_unlisted d h.noClass h.unbound he
  | some found =>
      obtain ⟨holder, e⟩ := found
      rw [he] at hreads
      cases e with
      | slot key => exact attribute_slot d h.noClass he
      | value f | static f =>
          -- What stands in the attribute dictionary comes before the value of the class.
          have hbind := bindEntry_constant (Dispatch.perform d) r (b.classOf r) holder name hreads
          rw [perform_attribute d h.noClass, Dispatch.instanceAttribute, run_get, he]
          cases ((b.dictionary? r).getD []).lookup name with
          | some own => rfl
          | none => exact hbind
      | _ => cases hreads

theorem steady_attribute?_openly (hd : 1 ≤ b.nesting) (h : b.StoresOpenly r) (hn : name ∈ b.slotNames (b.classOf r)) :
    b.Steady (Dispatch.ask.attribute? r name) (.ok (b.nameValue? r name)) := by
  refine steady_attribute?_of hd fun d v hv => ?_
  rw [← nameValue?_grows h hv.grows]
  refine attribute_of_readsStored d (h.grows hv.grows) ?_
  rwa [hv.grows.classOf h.has, hv.grows.slotNames]

theorem steady_fields_openly (hd : 1 ≤ b.nesting) (h : b.StoresOpenly r) :
    b.Steady (fields r) (.ok (b.shownFields r)) :=
  steady_fields_of h.has h.noClass fun _ hn => steady_attribute?_openly hd h hn

theorem shownFields_grows (h : w.StoresOpenly r) (hv : w.Grows v) : v.shownFields r = w.shownFields r := by
  have hvalue : v.nameValue? r = w.nameValue? r := funext fun _ => nameValue?_grows h hv
  rw [shownFields, hvalue, hv.classOf h.has, hv.slotNames, attributes_grows h.has hv, shownFields]

theorem settles_fields_openly (h : w.StoresOpenly r) : w.Settles (fields r) (.ok (w.shownFields r)) := by
  refine Filter.eventually_atTop.mpr ⟨1, fun n hn => ?_⟩
  rw [← shownFields_grows h (w.grows_limited n)]
  exact steady_fields_openly hn (h.grows (w.grows_limited n))

/-! ## What is shown -/

theorem distinct_shownFields (w : World) (r : Ref) : Pairs.Distinct (w.shownFields r) :=
  (distinct_foundAmong _ (w.nodup_slotNames _)).putAll _

theorem lookup_foundAmong {value? : String → Option Ref} {names : List String} (hn : names.Nodup) :
    (foundAmong value? names).lookup name = if name ∈ names then value? name else none := by
  refine Option.ext fun value => ?_
  rw [← Pairs.mem_iff_lookup (distinct_foundAmong value? hn), foundAmong, List.mem_filterMap,
    Option.ite_none_right_eq_some]
  constructor
  · rintro ⟨name', hmem, hvalue⟩
    obtain ⟨_, hvalue, hpair⟩ := Option.map_eq_some_iff.mp hvalue
    cases hpair
    exact ⟨hmem, hvalue⟩
  · rintro ⟨hmem, hvalue⟩
    exact ⟨name, hmem, by rw [hvalue]; rfl⟩

theorem lookup_shownFields (h : w.StoresOpenly r) :
    (w.shownFields r).lookup name = ((w.attributes r).lookup name).or
      (if name ∈ w.slotNames (w.classOf r) then w.nameValue? r name else none) := by
  rw [shownFields, Pairs.lookup_putAll h.distinct, lookup_foundAmong (w.nodup_slotNames _)]

/-- Where nothing stands in the attribute dictionary, a name leads to a slot or to a value of a class. -/
theorem nameValue?_eq_some_iff (hown : (w.attributes r).lookup name = none) :
    w.nameValue? r name = some value ↔
      (∃ owner key, w.entryOf? (w.classOf r) name = some (owner, .slot key) ∧ w.slot? r owner key = some value) ∨
        ∃ holder e, w.entryOf? (w.classOf r) name = some (holder, e) ∧ w.constant? e = some value := by
  rw [nameValue?, hown]
  cases he : w.entryOf? (w.classOf r) name with
  | none => simp
  | some found =>
      obtain ⟨holder, e⟩ := found
      cases e <;> simp [constant?]

/-- The fields have what is stored in the places that they show, and values of classes in place of others. -/
theorem mem_shownFields_iff (h : w.StoresOpenly r) :
    (name, value) ∈ w.shownFields r ↔
      (∃ place, w.ShowsAs r name place ∧ w.stored? r place = some value) ∨ w.Replaces r name value := by
  rw [Pairs.mem_iff_lookup (distinct_shownFields w r), lookup_shownFields h]
  cases hown : (w.attributes r).lookup name with
  | some own =>
      rw [Option.some_or]
      constructor
      · exact fun hvalue => .inl ⟨.attribute name, rfl, hown.trans hvalue⟩
      · rintro (⟨_ | name', hshows, hstored⟩ | ⟨-, hnone, -⟩)
        · cases hown.symm.trans hshows.2.1
        · rw [← hown, ← (show name' = name from hshows)]
          exact hstored
        · cases hown.symm.trans hnone
  | none =>
      rw [Option.none_or, Option.ite_none_right_eq_some, nameValue?_eq_some_iff hown]
      constructor
      · rintro ⟨hmem, ⟨owner, key, he, hslot⟩ | hconstant⟩
        · exact .inl ⟨.slot owner key, ⟨hmem, hown, he⟩, hslot⟩
        · exact .inr ⟨hmem, hown, hconstant⟩
      · rintro (⟨⟨owner, key⟩ | name', hshows, hstored⟩ | ⟨hmem, -, hconstant⟩)
        · exact ⟨hshows.1, .inl ⟨owner, key, hshows.2.2, hstored⟩⟩
        · rw [← (show name' = name from hshows)] at hown
          cases hown.symm.trans hstored
        · exact ⟨hmem, .inr hconstant⟩

/-- Every value that is stored occurs among the fields. -/
def CoversStorage (w : World) (r : Ref) (fields : List (String × Ref)) : Prop :=
  ∀ place value, w.stored? r place = some value → ∃ name, (name, value) ∈ fields

/-- What stands in the attribute dictionary is always shown. -/
theorem isShown_attribute (w : World) (r : Ref) (name : String) : w.IsShown r (.attribute name) := ⟨name, rfl⟩

/-- What is stored in a slot that is not shown stands in a place that is, or a class gives it under the name of a slot. -/
def Doubles (w : World) (r : Ref) (value : Ref) : Prop :=
  (∃ place, w.IsShown r place ∧ w.stored? r place = some value) ∨ ∃ name, w.Replaces r name value

/-- The fields cover what is stored exactly if what is stored in slots that they do not show stands elsewhere as well. -/
theorem coversStorage_iff (h : w.StoresOpenly r) :
    w.CoversStorage r (w.shownFields r) ↔
      ∀ owner key value, w.slot? r owner key = some value → ¬ w.IsShown r (.slot owner key) → w.Doubles r value := by
  have hoccurs (value : Ref) : (∃ name, (name, value) ∈ w.shownFields r) ↔ w.Doubles r value := by
    simp only [mem_shownFields_iff h, exists_or, Doubles, IsShown, ← exists_and_right]
    rw [exists_comm]
  constructor
  · exact fun hcovers owner key value hslot _ => (hoccurs value).mp (hcovers (.slot owner key) value hslot)
  · intro hdoubles place value hstored
    rw [hoccurs]
    by_cases hshown : w.IsShown r place
    · exact .inl ⟨place, hshown, hstored⟩
    · rcases place with ⟨owner, key⟩ | name
      · exact hdoubles owner key value hstored hshown
      · exact absurd (isShown_attribute w r name) hshown

/-! ## Two objects that differ in one place -/

/-- Two objects of one class store the same but in one place. -/
structure AgreeBut (w : World) (a b : Ref) (place : Place) (x y : Ref) : Prop where
  left : w.StoresOpenly a
  right : w.StoresOpenly b
  sameClass : w.classOf a = w.classOf b
  elsewhere : ∀ other, other ≠ place → w.stored? a other = w.stored? b other
  atLeft : w.stored? a place = some x
  atRight : w.stored? b place = some y

namespace AgreeBut

variable {a b x y : Ref} (h : w.AgreeBut a b place x y)
include h

/-- They have attributes under the same names. -/
theorem lookup_attributes_eq_none_iff :
    (w.attributes a).lookup name = none ↔ (w.attributes b).lookup name = none := by
  by_cases hplace : Place.attribute name = place
  · have hleft : (w.attributes a).lookup name = some x := (hplace ▸ h.atLeft : w.stored? a (.attribute name) = _)
    have hright : (w.attributes b).lookup name = some y := (hplace ▸ h.atRight : w.stored? b (.attribute name) = _)
    rw [hleft, hright]
    exact ⟨fun h => (Option.some_ne_none _ h).elim, fun h => (Option.some_ne_none _ h).elim⟩
  · rw [show (w.attributes a).lookup name = _ from h.elsewhere _ hplace]
    rfl

theorem showsAs_iff {other : Place} : w.ShowsAs a name other ↔ w.ShowsAs b name other := by
  rcases other with ⟨owner, key⟩ | name'
  · rw [ShowsAs, ShowsAs, h.sameClass, h.lookup_attributes_eq_none_iff]
  · rfl

theorem replaces_iff : w.Replaces a name value ↔ w.Replaces b name value := by
  rw [Replaces, Replaces, h.sameClass, h.lookup_attributes_eq_none_iff]

/-- A name that does not show the place has the same field in both. -/
theorem lookup_shownFields_eq (hname : ¬ w.ShowsAs a name place) :
    (w.shownFields a).lookup name = (w.shownFields b).lookup name := by
  refine Option.ext fun value => ?_
  rw [← Pairs.mem_iff_lookup (distinct_shownFields w a), ← Pairs.mem_iff_lookup (distinct_shownFields w b),
    mem_shownFields_iff h.left, mem_shownFields_iff h.right, h.replaces_iff]
  refine or_congr_left (exists_congr fun other => ?_)
  rw [← h.showsAs_iff]
  refine and_congr_right fun hshows => ?_
  rw [h.elsewhere other fun hplace => hname (hplace ▸ hshows)]

theorem lookup_shownFields_left (hname : w.ShowsAs a name place) : (w.shownFields a).lookup name = some x :=
  (Pairs.mem_iff_lookup (distinct_shownFields w a)).mp
    ((mem_shownFields_iff h.left).mpr (.inl ⟨place, hname, h.atLeft⟩))

theorem lookup_shownFields_right (hname : w.ShowsAs a name place) : (w.shownFields b).lookup name = some y :=
  (Pairs.mem_iff_lookup (distinct_shownFields w b)).mp
    ((mem_shownFields_iff h.right).mpr (.inl ⟨place, h.showsAs_iff.mp hname, h.atRight⟩))

theorem length_shownFields : (w.shownFields a).length = (w.shownFields b).length := by
  refine Pairs.length_eq_of_keys (distinct_shownFields w a) (distinct_shownFields w b) fun name => ?_
  by_cases hname : w.ShowsAs a name place
  · rw [h.lookup_shownFields_left hname, h.lookup_shownFields_right hname]
    rfl
  · rw [h.lookup_shownFields_eq hname]

/-- Each field of the first is the field of the same name of the second, unless its name shows the place. -/
theorem lookup_of_mem (hmem : (name, value) ∈ w.shownFields a) :
    (¬ w.ShowsAs a name place ∧ (w.shownFields b).lookup name = some value) ∨
      w.ShowsAs a name place ∧ value = x ∧ (w.shownFields b).lookup name = some y := by
  have hvalue := (Pairs.mem_iff_lookup (distinct_shownFields w a)).mp hmem
  by_cases hname : w.ShowsAs a name place
  · refine .inr ⟨hname, ?_, h.lookup_shownFields_right hname⟩
    rw [h.lookup_shownFields_left hname] at hvalue
    exact (Option.some.inj hvalue).symm
  · exact .inl ⟨hname, h.lookup_shownFields_eq hname ▸ hvalue⟩

end AgreeBut

end Introspect.World
