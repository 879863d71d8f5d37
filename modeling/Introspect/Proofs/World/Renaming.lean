import Mathlib.Logic.Embedding.Basic
import Introspect.Proofs.Reflect.Storage
/-!
The same objects and classes at other places. A renaming says where the objects, the classes, the functions and the
types of one world stand in another one. What the objects store is renamed with them.
-/
namespace Introspect

/-- Where addresses and indices of one world stand in another, no two of them in one place. -/
structure Renaming where
  cell : Nat ↪ Nat
  cls : Nat ↪ Nat
  function : Nat ↪ Nat
  descriptor : Nat ↪ Nat

/-- Everything keeps its place. -/
def Renaming.refl : Renaming := ⟨.refl Nat, .refl Nat, .refl Nat, .refl Nat⟩

section Syntax

variable (ρ : Renaming)

def ClassId.rename : ClassId → ClassId
  | .native n => .native n
  | .declared i => .declared (ρ.cls i)

def Routine.rename : Routine → Routine
  | .function i => .function (ρ.function i)
  | .native owner name => .native owner name
  | .length => .length
  | .magnitude => .magnitude
  | .zero => .zero
  | .one => .one

def Ref.rename : Ref → Ref
  | .atom a => .atom a
  | .emptyTuple => .emptyTuple
  | .cell address => .cell (ρ.cell address)
  | .cls c => .cls (c.rename ρ)
  | .descriptor id => .descriptor (ρ.descriptor id)
  | .weak id => .weak (ρ.descriptor id)
  | .routine f => .routine (f.rename ρ)
  | .entry c key => .entry (c.rename ρ) key
  | .ellipsis => .ellipsis
  | .notImplemented => .notImplemented

def Pairs.rename {α : Type} (pairs : List (α × Ref)) : List (α × Ref) := pairs.map (Prod.map id (Ref.rename ρ))

def Body.rename : Body → Body
  | .atom a => .atom a
  | .sequence items => .sequence (items.map (Ref.rename ρ))
  | .range start stop step => .range start stop step
  | .byteArray content => .byteArray content
  | .mapping entries => .mapping (entries.map (Prod.map (Ref.rename ρ) (Ref.rename ρ)))
  | .members items => .members (items.map (Ref.rename ρ))
  | .box value tainted => .box (value.rename ρ) tainted
  | .error message cause => .error (message.rename ρ) (cause.rename ρ)
  | .bound self f => .bound (self.rename ρ) (f.rename ρ)
  | .partialCall f => .partialCall (f.rename ρ)
  | .routine f => .routine (f.rename ρ)
  | .methodWrapper => .methodWrapper
  | .cls c => .cls (c.rename ρ)
  | .descriptor id => .descriptor (ρ.descriptor id)
  | .stream => .stream
  | .nothing => .nothing

def Cell.rename (cell : Cell) : Cell where
  cls := cell.cls.rename ρ
  body := cell.body.rename ρ
  slots := cell.slots.map (Prod.map (Prod.map (ClassId.rename ρ) id) (Ref.rename ρ))
  attributes := cell.attributes.map (Pairs.rename ρ)

def Entry.rename : Entry → Entry
  | .native owner member => .native owner member
  | .value r => .value (r.rename ρ)
  | .classLevel r => .classLevel (r.rename ρ)
  | .static r => .static (r.rename ρ)
  | .property i => .property (ρ.function i)
  | .slot name => .slot name

def ClassInfo.rename (info : ClassInfo) : ClassInfo where
  name := info.name
  qualname := info.qualname
  modName := info.modName
  bases := info.bases.map (ClassId.rename ρ)
  ancestry := info.ancestry.map (ClassId.rename ρ)
  slots := info.slots
  entries := info.entries.map (Prod.map id (Entry.rename ρ))

def Descriptor.rename (d : Descriptor) : Descriptor := ⟨d.cls.rename ρ, d.qname, d.name⟩

end Syntax

variable {ρ : Renaming}

theorem ClassId.rename_injective : Function.Injective (ClassId.rename ρ) := by
  intro c c' h
  cases c <;> cases c' <;> simp_all [ClassId.rename]

theorem Routine.rename_injective : Function.Injective (Routine.rename ρ) := by
  intro f f' h
  cases f <;> cases f' <;> simp_all [Routine.rename]

theorem Ref.rename_injective : Function.Injective (Ref.rename ρ) := by
  intro r r' h
  cases r <;> cases r' <;>
    simp_all [Ref.rename, ClassId.rename_injective.eq_iff, Routine.rename_injective.eq_iff]

/-- A native class has the same place everywhere. -/
theorem ClassId.rename_eq_native {c : ClassId} {n : Native} : c.rename ρ = .native n ↔ c = .native n :=
  ClassId.rename_injective.eq_iff (b := .native n)

theorem lookup_map {α β γ δ : Type} [BEq α] [LawfulBEq α] [BEq β] [LawfulBEq β] {f : α → β} (hf : Function.Injective f)
    (g : γ → δ) (pairs : List (α × γ)) (a : α) :
    (pairs.map (Prod.map f g)).lookup (f a) = (pairs.lookup a).map g := by
  induction pairs with
  | nil => rfl
  | cons p rest ih =>
      rw [List.map_cons, Prod.map, List.lookup_cons, List.lookup_cons, ih]
      by_cases h : a = p.1
      · subst h
        simp only [beq_self_eq_true, Option.map_some]
      · rw [beq_eq_false_iff_ne.mpr h, beq_eq_false_iff_ne.mpr (hf.ne h)]

namespace Pairs

theorem lookup_rename (pairs : List (String × Ref)) (name : String) :
    (rename ρ pairs).lookup name = (pairs.lookup name).map (Ref.rename ρ) :=
  lookup_map Function.injective_id _ pairs name

theorem put_rename (name : String) (value : Ref) (pairs : List (String × Ref)) :
    put name (value.rename ρ) (rename ρ pairs) = rename ρ (put name value pairs) := by
  induction pairs with
  | nil => rfl
  | cons p rest ih =>
      change put name (value.rename ρ) ((p.1, p.2.rename ρ) :: rename ρ rest) = rename ρ (put name value (p :: rest))
      rw [put, put]
      split
      · rfl
      · rw [ih]
        rfl

theorem putAll_rename (pairs more : List (String × Ref)) :
    putAll (rename ρ pairs) (rename ρ more) = rename ρ (putAll pairs more) := by
  induction more generalizing pairs with
  | nil => rfl
  | cons p rest ih =>
      change putAll (put p.1 (p.2.rename ρ) (rename ρ pairs)) (rename ρ rest) = rename ρ (putAll (put p.1 p.2 pairs) rest)
      rw [put_rename, ih]

end Pairs

theorem entryOf?_rename (info : ClassInfo) (key : String) :
    (info.rename ρ).entryOf? key = (info.entryOf? key).map (Entry.rename ρ) :=
  lookup_map Function.injective_id _ info.entries key

theorem fullName_rename (info : ClassInfo) : (info.rename ρ).fullName = info.fullName := rfl

namespace World

/-- The classes that decide what a reference is and what it stores. -/
def classesOf (w : World) (r : Ref) : List ClassId :=
  w.classOf r :: w.ancestry (w.classOf r) ++
    match r, w.body r with
    | .entry c _, _ => [c]
    | _, .cls c => [c]
    | _, _ => []

theorem mem_classesOf_of_mem_ancestry {w : World} {r : Ref} {c : ClassId} (hc : c ∈ w.ancestry (w.classOf r)) :
    c ∈ w.classesOf r :=
  List.mem_append_left _ (List.mem_cons_of_mem _ hc)

theorem mem_classesOf_of_body {w : World} {r : Ref} {c : ClassId} (hb : w.body r = .cls c) : c ∈ w.classesOf r := by
  refine List.mem_append_right _ ?_
  rw [hb]
  cases r with
  | entry c' key => rcases w.body_entry c' key with h | h <;> rw [h] at hb <;> cases hb
  | _ => exact List.mem_singleton_self c

/-- What stands at a reference stands in the other world where the renaming says. -/
def CopiedAt (ρ : Renaming) (w v : World) : Ref → Prop
  | .cell i => v.cells[ρ.cell i]? = (w.cells[i]?).map (Cell.rename ρ)
  | .descriptor id =>
    v.registry.descriptor? (ρ.descriptor id) = (w.registry.descriptor? id).map (Descriptor.rename ρ)
  | _ => True

instance (ρ : Renaming) (w v : World) (r : Ref) : Decidable (w.CopiedAt ρ v r) :=
  match r with
  | .cell i => inferInstanceAs (Decidable (v.cells[ρ.cell i]? = (w.cells[i]?).map (Cell.rename ρ)))
  | .descriptor id => inferInstanceAs (Decidable
      (v.registry.descriptor? (ρ.descriptor id) = (w.registry.descriptor? id).map (Descriptor.rename ρ)))
  | .atom _ | .emptyTuple | .cls _ | .weak _ | .routine _ | .entry .. | .ellipsis | .notImplemented => .isTrue trivial

/-- The references have the same content in the other world, stored under the same declarations of classes. What else
the worlds hold may differ, and so may their registries. -/
structure Copies (ρ : Renaming) (w v : World) (S : List Ref) : Prop where
  objects : ∀ r ∈ S, w.CopiedAt ρ v r
  classes : ∀ r ∈ S, ∀ c ∈ w.classesOf r, v.info (c.rename ρ) = (w.info c).rename ρ

instance (ρ : Renaming) (w v : World) (S : List Ref) : Decidable (w.Copies ρ v S) :=
  decidable_of_iff ((∀ r ∈ S, w.CopiedAt ρ v r) ∧
      ∀ r ∈ S, ∀ c ∈ w.classesOf r, v.info (c.rename ρ) = (w.info c).rename ρ)
    ⟨fun h => ⟨h.1, h.2⟩, fun h => ⟨h.objects, h.classes⟩⟩

namespace Copies

variable {w v : World} {S : List Ref} {r : Ref} {c : ClassId}

theorem cell {i : Nat} (h : w.Copies ρ v S) (hr : .cell i ∈ S) :
    v.cells[ρ.cell i]? = (w.cells[i]?).map (Cell.rename ρ) :=
  h.objects _ hr

theorem descriptor {id : Nat} (h : w.Copies ρ v S) (hr : .descriptor id ∈ S) :
    v.registry.descriptor? (ρ.descriptor id) = (w.registry.descriptor? id).map (Descriptor.rename ρ) :=
  h.objects _ hr

theorem classOf (h : w.Copies ρ v S) (hr : r ∈ S) : v.classOf (r.rename ρ) = (w.classOf r).rename ρ := by
  cases r with
  | cell i =>
      simp only [Ref.rename, World.classOf, h.cell hr]
      cases w.cells[i]? <;> rfl
  | entry c key =>
      have hinfo := h.classes _ hr c (List.mem_append_right _ List.mem_cons_self)
      simp only [Ref.rename, World.classOf, hinfo, entryOf?_rename]
      cases (w.info c).entryOf? key with
      | none => rfl
      | some e => cases e <;> rfl
  | routine f => cases f <;> rfl
  | _ => rfl

theorem body (h : w.Copies ρ v S) (hr : r ∈ S) : v.body (r.rename ρ) = (w.body r).rename ρ := by
  cases r with
  | cell i =>
      simp only [Ref.rename, World.body, h.cell hr]
      cases w.cells[i]? <;> rfl
  | entry c key =>
      have hinfo := h.classes _ hr c (List.mem_append_right _ List.mem_cons_self)
      simp only [Ref.rename, World.body, hinfo, entryOf?_rename]
      cases (w.info c).entryOf? key with
      | none => rfl
      | some e => cases e <;> rfl
  | _ => rfl

theorem ancestry (h : w.Copies ρ v S) (hr : r ∈ S) :
    v.ancestry (v.classOf (r.rename ρ)) = (w.ancestry (w.classOf r)).map (ClassId.rename ρ) := by
  rw [World.ancestry, h.classOf hr, h.classes r hr _ List.mem_cons_self]
  rfl

theorem isSubclass (h : w.Copies ρ v S) (hr : r ∈ S) (n : Native) :
    v.isSubclass (v.classOf (r.rename ρ)) (.native n) = w.isSubclass (w.classOf r) (.native n) := by
  rw [World.isSubclass, World.isSubclass, h.ancestry hr, Bool.eq_iff_iff, List.contains_iff_mem, List.contains_iff_mem,
    List.mem_map]
  constructor
  · rintro ⟨c, hc, hn⟩
    rwa [ClassId.rename_eq_native.mp hn] at hc
  · exact fun hn => ⟨_, hn, rfl⟩

/-! ## Entries and slots of classes -/

theorem entryAmong? (h : w.Copies ρ v S) (hr : r ∈ S) (key : String) {cs : List ClassId}
    (hcs : ∀ c ∈ cs, c ∈ w.classesOf r) :
    v.entryAmong? key (cs.map (ClassId.rename ρ)) =
      (w.entryAmong? key cs).map (Prod.map (ClassId.rename ρ) (Entry.rename ρ)) := by
  induction cs with
  | nil => rfl
  | cons c rest ih =>
      rw [List.map_cons, World.entryAmong?, World.entryAmong?, h.classes r hr _ (hcs c List.mem_cons_self), entryOf?_rename]
      cases (w.info c).entryOf? key with
      | some e => rfl
      | none => exact ih fun c hc => hcs c (List.mem_cons_of_mem _ hc)

theorem entryOf? (h : w.Copies ρ v S) (hr : r ∈ S) (key : String) :
    v.entryOf? (v.classOf (r.rename ρ)) key =
      (w.entryOf? (w.classOf r) key).map (Prod.map (ClassId.rename ρ) (Entry.rename ρ)) := by
  rw [World.entryOf?, World.entryOf?, h.ancestry hr]
  exact h.entryAmong? hr key fun c hc => mem_classesOf_of_mem_ancestry hc

theorem slotNames (h : w.Copies ρ v S) (hr : r ∈ S) :
    v.slotNames (v.classOf (r.rename ρ)) = w.slotNames (w.classOf r) := by
  rw [World.slotNames, World.slotNames, h.ancestry hr, ← List.map_reverse, List.foldl_map]
  refine List.foldl_ext _ _ _ fun names c hc => ?_
  rw [h.classes r hr _ (mem_classesOf_of_mem_ancestry (List.mem_reverse.mp hc))]
  rfl

/-! ## What objects hold -/

theorem has (h : w.Copies ρ v S) (hr : r ∈ S) (hw : w.Has r) : v.Has (r.rename ρ) := by
  cases r with
  | cell i =>
      have hcell := h.cell hr
      rw [Array.getElem?_eq_getElem hw] at hcell
      exact (Array.getElem?_eq_some_iff.mp hcell).1
  | descriptor id =>
      change (v.registry.descriptor? (ρ.descriptor id)).isSome = true
      rw [h.descriptor hr, Option.isSome_map]
      exact hw
  | _ => trivial

theorem isObject (h : w.Copies ρ v S) (hr : r ∈ S) : v.isObject (r.rename ρ) = w.isObject r := by
  rw [World.isObject, World.isObject, h.body hr]
  cases w.body r <;> rfl

theorem atom? (h : w.Copies ρ v S) (hr : r ∈ S) : v.atom? (r.rename ρ) = w.atom? r := by
  rw [World.atom?, World.atom?, h.body hr]
  cases w.body r <;> rfl

theorem items? (h : w.Copies ρ v S) (hr : r ∈ S) :
    v.items? (r.rename ρ) = (w.items? r).map (List.map (Ref.rename ρ)) := by
  rw [World.items?, World.items?, h.body hr]
  cases w.body r with
  | range start stop step =>
      simp only [Body.rename, Option.map_some, rangeItems, List.map_map]
      rfl
  | byteArray content =>
      simp only [Body.rename, Option.map_some, List.map_map]
      rfl
  | _ => rfl

theorem dictionary? (h : w.Copies ρ v S) (hr : r ∈ S) :
    v.dictionary? (r.rename ρ) = (w.dictionary? r).map (Pairs.rename ρ) := by
  cases r with
  | cell i =>
      have hcell := h.cell hr
      have hsubclass := h.isSubclass hr .obj
      simp only [Ref.rename, World.classOf, hcell] at hsubclass
      simp only [Ref.rename, World.dictionary?, hcell]
      cases hi : w.cells[i]? with
      | none => rfl
      | some cell =>
          obtain ⟨cls, body, slots, attributes⟩ := cell
          rw [hi] at hsubclass
          change v.isSubclass (cls.rename ρ) _ = w.isSubclass cls _ at hsubclass
          cases body with
          | box value tainted => cases attributes <;> rfl
          | error message cause =>
              simp only [Option.map_some, Cell.rename, Body.rename, hsubclass]
              split
              · cases attributes <;> rfl
              · rfl
          | _ => rfl
  | descriptor id =>
      simp only [Ref.rename, World.dictionary?, h.descriptor hr, Option.map_map]
      cases w.registry.descriptor? id <;> rfl
  | routine f => cases f <;> rfl
  | _ => rfl

theorem slot? (h : w.Copies ρ v S) (hr : r ∈ S) (owner : ClassId) (name : String) :
    v.slot? (r.rename ρ) (owner.rename ρ) name = (w.slot? r owner name).map (Ref.rename ρ) := by
  cases r with
  | cell i =>
      simp only [Ref.rename, World.slot?, h.cell hr]
      cases w.cells[i]? with
      | none => rfl
      | some cell =>
          have hinj : Function.Injective (Prod.map (ClassId.rename ρ) (id : String → String)) :=
            ClassId.rename_injective.prodMap Function.injective_id
          exact lookup_map hinj (Ref.rename ρ) cell.slots (owner, name)
  | _ => rfl

/-! ## What objects store -/

theorem readsQuietly (h : w.Copies ρ v S) (hr : r ∈ S) (name : String) :
    v.readsQuietly (r.rename ρ) name = w.readsQuietly r name := by
  rw [World.readsQuietly, World.readsQuietly, h.entryOf? hr, h.body hr]
  cases w.entryOf? (w.classOf r) name with
  | none => cases w.body r <;> rfl
  | some found =>
      obtain ⟨holder, e⟩ := found
      cases e <;> rfl

theorem slotValue? (h : w.Copies ρ v S) (hr : r ∈ S) (name : String) :
    v.slotValue? (r.rename ρ) name = (w.slotValue? r name).map (Ref.rename ρ) := by
  have hplain : ((v.dictionary? (r.rename ρ)).getD []).lookup name =
      (((w.dictionary? r).getD []).lookup name).map (Ref.rename ρ) := by
    rw [h.dictionary? hr]
    cases w.dictionary? r with
    | none => rfl
    | some pairs => exact Pairs.lookup_rename pairs name
  rw [World.slotValue?, World.slotValue?, h.entryOf? hr]
  cases w.entryOf? (w.classOf r) name with
  | none => exact hplain
  | some found =>
      obtain ⟨holder, e⟩ := found
      cases e with
      | slot key => exact h.slot? hr holder key
      | _ => exact hplain

theorem filledSlots (h : w.Copies ρ v S) (hr : r ∈ S) (names : List String) :
    v.filledSlots (r.rename ρ) names = Pairs.rename ρ (w.filledSlots r names) := by
  rw [World.filledSlots, World.filledSlots, Pairs.rename, List.map_filterMap]
  refine List.filterMap_congr fun name _ => ?_
  rw [h.slotValue? hr]
  cases w.slotValue? r name <;> rfl

theorem storedFields (h : w.Copies ρ v S) (hr : r ∈ S) :
    v.storedFields (r.rename ρ) = Pairs.rename ρ (w.storedFields r) := by
  have hown : (v.dictionary? (r.rename ρ)).getD [] = Pairs.rename ρ ((w.dictionary? r).getD []) := by
    rw [h.dictionary? hr]
    cases w.dictionary? r <;> rfl
  rw [World.storedFields, World.storedFields, h.slotNames hr, h.filledSlots hr, hown, Pairs.putAll_rename]

theorem storesQuietly (h : w.Copies ρ v S) (hr : r ∈ S) (hw : w.StoresQuietly r) : v.StoresQuietly (r.rename ρ) where
  has := h.has hr hw.has
  object := (h.isObject hr).trans hw.object
  quiet name hn := (h.readsQuietly hr name).trans (hw.quiet name (h.slotNames hr ▸ hn))

end Copies

end World

end Introspect
