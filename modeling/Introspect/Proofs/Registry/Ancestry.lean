import Mathlib.Data.List.Forall2
import Introspect.Dispatch.Super
import Introspect.Proofs.Registry.Find
/-!
The ancestry of a type. Asking for it registers each of its classes, and changes nothing else; what a
class is registered under lasts.
-/
namespace Introspect

namespace World

/-- The world with other descriptors. -/
def registered (w : World) (g : Registry) : World := { w with registry := g }

/-- The descriptor that a class has, or the one that it gets when it is asked for. -/
def descriptorOf (w : World) (c : ClassId) : Descriptor :=
  ((w.registry.byClass.lookup c).bind w.registry.descriptor?).getD
    ⟨c, (w.info c).fullName, (w.info c).name⟩

/-- The second registry is one that a run in the world comes to by asking for classes. -/
structure Enrolls (w : World) (g : Registry) : Prop where
  leads : w.Leads (w.registered g)
  sound : g.Sound

variable {w : World} {g g' : Registry} {c : ClassId}

@[simp] theorem info_registered : (w.registered g).info c = w.info c := by cases c <;> rfl

@[simp] theorem ancestry_registered : (w.registered g).ancestry c = w.ancestry c := by
  simp only [ancestry, info_registered]

@[simp] theorem isOperation_registered {e : Entry} :
    (w.registered g).isOperation e = w.isOperation e := by cases e <;> rfl

@[simp] theorem hasEntry_registered : (w.registered g).hasEntry = w.hasEntry := by
  funext key c
  simp only [hasEntry, info_registered]

@[simp] theorem declared_registered : (w.registered g).declared c = w.declared c := by
  simp only [declared, info_registered, ancestry_registered, isOperation_registered,
    hasEntry_registered]

@[simp] theorem entryCode?_registered {key : String} {e : Entry} :
    (w.registered g).entryCode? key e = w.entryCode? key e := by
  cases e with
  | native owner member => rfl
  | _ => rfl

theorem Enrolls.refl (hs : w.registry.Sound) : w.Enrolls w.registry := ⟨.refl w, hs⟩

theorem Enrolls.trans (h : w.Enrolls g) (h' : (w.registered g).Enrolls g') : w.Enrolls g' :=
  ⟨h.leads.trans h'.leads, h'.sound⟩

theorem Enrolls.isAlive (h : w.Enrolls g) : (w.registered g).isAlive c = w.isAlive c :=
  h.leads.grows.isAlive c

theorem cls_descriptorOf (hs : w.registry.Sound) : (w.descriptorOf c).cls = c := by
  unfold descriptorOf
  cases hl : w.registry.byClass.lookup c with
  | none => rfl
  | some id =>
      obtain ⟨d, hd, hc⟩ := hs c id hl
      rw [Option.bind_some, hd]
      exact hc

theorem descriptorOf_register (hs : w.registry.Sound) (c' : ClassId) :
    (w.registered (w.registry.register c' (w.info c').fullName (w.info c').name).1).descriptorOf c =
      w.descriptorOf c := by
  cases hl : w.registry.byClass.lookup c with
  | some id =>
      obtain ⟨d, hd, -⟩ := hs c id hl
      simp only [descriptorOf, registered, Registry.lookup_register_of_some hl, hl, Option.bind_some,
        Registry.descriptor?_register_of_some hd, hd, Option.getD_some]
  | none =>
      by_cases hc : c = c'
      · subst hc
        simp [descriptorOf, registered, hl, Registry.register, Registry.descriptor?]
      · have hnew : (w.registry.register c' (w.info c').fullName (w.info c').name).1.byClass.lookup c =
            none := by
          unfold Registry.register
          split
          · exact hl
          · simpa only [List.lookup_cons, beq_false_of_ne hc] using hl
        have hinfo := info_registered (w := w) (c := c)
          (g := (w.registry.register c' (w.info c').fullName (w.info c').name).1)
        unfold descriptorOf
        rw [hinfo]
        simp only [registered, hnew, hl, Option.bind_none]

theorem descriptorOf_grows {v : World} (hs : w.registry.Sound) (hv : w.Grows v) :
    v.descriptorOf c = w.descriptorOf c := by
  induction hv with
  | refl => rfl
  | limit n _ ih => rw [← ih]; cases c <;> rfl
  | alloc cell _ ih => rw [← ih]; cases c <;> rfl
  | register c' h ih => rw [← ih, ← descriptorOf_register (h.sound hs) c']; rfl

theorem typeName_eq (r : Ref) : Registry.typeName w r = (w.descriptorOf (w.classOf r)).qname := by
  unfold Registry.typeName Registry.nameOf descriptorOf
  cases (w.registry.byClass.lookup (w.classOf r)).bind w.registry.descriptor? <;> rfl

/-- A descriptor is what the registry has or would have for its class. -/
def Describes (w : World) (g : Registry) (id : Nat) (c : ClassId) : Prop :=
  g.descriptor? id = some (w.descriptorOf c)

theorem ofClass_eq (hs : w.registry.Sound) (c : ClassId) :
    ∃ g id, w.Enrolls g ∧ Registry.ofClass c w = .ok id (w.registered g) ∧ w.Describes g id c := by
  have hsound := hs.register c (w.info c).fullName (w.info c).name
  refine ⟨_, (w.registry.register c (w.info c).fullName (w.info c).name).2, ⟨.register w c, hsound⟩, rfl, ?_⟩
  obtain ⟨d, hd, -⟩ := Registry.descriptor?_register hs c (w.info c).fullName (w.info c).name
  have hl := Registry.lookup_register (r := w.registry) c (w.info c).fullName (w.info c).name
  unfold Describes
  rw [← descriptorOf_register hs c, hd, descriptorOf]
  simp only [registered, hl, Option.bind_some, hd, Option.getD_some]

theorem mapM_ofClass_eq (hs : w.registry.Sound) (cs : List ClassId) :
    ∃ g ids, w.Enrolls g ∧ cs.mapM Registry.ofClass w = .ok ids (w.registered g) ∧
      List.Forall₂ (w.Describes g) ids cs := by
  induction cs generalizing w with
  | nil => exact ⟨w.registry, [], .refl hs, rfl, .nil⟩
  | cons c rest ih =>
      obtain ⟨g, id, hg, hid, hd⟩ := ofClass_eq hs c
      obtain ⟨g', ids, hg', hids, hds⟩ := ih (w := w.registered g) hg.sound
      refine ⟨g', id :: ids, hg.trans hg', ?_, .cons (hg'.leads.grows.descriptor? hd) ?_⟩
      · rw [List.mapM_cons, run_bind_ok hid, run_bind_ok hids]
        rfl
      · exact hds.imp fun i c' h => h.trans (congrArg some (descriptorOf_grows hs hg.leads.grows))

theorem descriptor_eq {id : Nat} {d : Descriptor} (hd : w.registry.descriptor? id = some d) :
    Registry.descriptor id w = .ok d w := by
  rw [Registry.descriptor, run_get, hd]
  rfl

theorem liveClass_eq {id : Nat} {d : Descriptor} (hd : w.registry.descriptor? id = some d)
    (ha : w.isAlive d.cls = true) : Registry.liveClass id w = .ok d.cls w := by
  have hclass : Registry.class? id w = .ok (some d.cls) w := by
    rw [Registry.class?, run_bind_ok (descriptor_eq hd), run_get, if_pos ha]
    rfl
  rw [Registry.liveClass, run_bind_ok hclass]
  rfl

/-- Asking for the ancestry of a type that exists answers a descriptor for each class. -/
theorem ancestry_eq {id : Nat} {d : Descriptor} (hs : w.registry.Sound)
    (hd : w.registry.descriptor? id = some d) (ha : w.isAlive d.cls = true) :
    ∃ g ids, w.Enrolls g ∧ Registry.ancestry id w = .ok ids (w.registered g) ∧
      List.Forall₂ (w.Describes g) ids (w.ancestry d.cls) := by
  obtain ⟨g, ids, hg, hids, hds⟩ := mapM_ofClass_eq hs (w.ancestry d.cls)
  refine ⟨g, ids, hg, ?_, hds⟩
  rw [Registry.ancestry, run_bind_ok (liveClass_eq hd ha), run_get, hids]

/-- The computation answers the type that the descriptor describes, and asks for classes at most. -/
def Identifies (w : World) (type : Act Nat) (d : Descriptor) : Prop :=
  ∃ g id, w.Enrolls g ∧ type w = .ok id (w.registered g) ∧ g.descriptor? id = some d

theorem identifies_ofClass (hs : w.registry.Sound) (c : ClassId) :
    w.Identifies (Registry.ofClass c) (w.descriptorOf c) := ofClass_eq hs c

/-- As data, an object is of its class. -/
theorem identifies_asData (hs : w.registry.Sound) (ask : Ask) (r : Ref) :
    w.Identifies (Dispatch.viewType ask .asData r) (w.descriptorOf (w.classOf r)) := ofClass_eq hs _

/-- As a type, a class is itself. -/
theorem identifies_asType (hs : w.registry.Sound) (ask : Ask) (c : ClassId) :
    w.Identifies (Dispatch.viewType ask .asType (.cls c)) (w.descriptorOf c) := ofClass_eq hs _

theorem identifies_descriptor {id : Nat} {d : Descriptor} (hs : w.registry.Sound)
    (hd : w.registry.descriptor? id = some d) : w.Identifies (pure id) d :=
  ⟨w.registry, id, .refl hs, rfl, hd⟩

end World

end Introspect
