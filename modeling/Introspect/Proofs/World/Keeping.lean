import Mathlib.Logic.Relation
import Introspect.Proofs.Registry.Ancestry
/-!
What computations of a program do to a world, and what none of them changes. Whatever a computation ends with,
the classes and functions are those from before, each object is still of its class, and each class is registered
as before.
-/
namespace Introspect

variable {α β σ : Type}

def Body.isRoutine : Body → Bool
  | .routine _ | .bound .. | .methodWrapper => true
  | _ => false

/-- An object keeps its class, and what is called stays what it is. -/
structure Cell.Becomes (x y : Cell) : Prop where
  cls : y.cls = x.cls
  body : y.body = x.body ∨ x.body.isRoutine = false ∧ y.body.isRoutine = false

namespace Cell.Becomes

variable {x y z : Cell}

theorem refl (x : Cell) : x.Becomes x := ⟨rfl, .inl rfl⟩

theorem trans (h : x.Becomes y) (h' : y.Becomes z) : x.Becomes z where
  cls := h'.cls.trans h.cls
  body := by
    rcases h.body with hxy | ⟨hx, hy⟩ <;> rcases h'.body with hyz | ⟨hy', hz⟩
    · exact .inl (hyz.trans hxy)
    · exact .inr ⟨hxy ▸ hy', hz⟩
    · exact .inr ⟨hx, hyz ▸ hy⟩
    · exact .inr ⟨hx, hz⟩

end Cell.Becomes

namespace World

/-- The second world has the classes, functions, objects and descriptors of the first. -/
structure Keeps (w v : World) : Prop where
  classes : v.classes = w.classes
  functions : v.functions = w.functions
  dropped : v.dropped = w.dropped
  cells : ∀ (i : Nat) (x : Cell), w.cells[i]? = some x → ∃ y, v.cells[i]? = some y ∧ x.Becomes y
  descriptors : ∀ id d, w.registry.descriptor? id = some d → v.registry.descriptor? id = some d
  registry : w.registry.Sound → v.registry.Sound ∧ ∀ c, v.descriptorOf c = w.descriptorOf c

variable {w v u : World} {a c : ClassId} {r : Ref}

theorem Grows.keeps (h : w.Grows v) : w.Keeps v where
  classes := h.classes
  functions := by rw [h.rest]
  dropped := by rw [h.rest]
  cells i x hx := by
    refine ⟨x, ?_, .refl x⟩
    rw [h.cells (Array.getElem?_eq_some_iff.mp hx).1, hx]
  descriptors _ _ hd := h.descriptor? hd
  registry hs := ⟨h.sound hs, fun _ => descriptorOf_grows hs h⟩

theorem isRoutine_eq (w : World) (r : Ref) : w.isRoutine r = (w.body r).isRoutine := by
  unfold World.isRoutine Body.isRoutine
  cases w.body r <;> rfl

/-- The world holds what an entry refers to, and what that is bound to. -/
def HoldsEntry (w : World) : Entry → Prop
  | .value r | .classLevel r | .static r => w.Has r ∧ ∀ x f, w.body r = .bound x f → w.Has f
  | _ => True

/-- The world holds what stands in the namespaces along an ancestry. -/
def HoldsEntries (w : World) (c : ClassId) : Prop :=
  ∀ a ∈ w.ancestry c, ∀ p ∈ (w.info a).entries, w.HoldsEntry p.2

theorem holdsEntry_native {w : World} {n : Native} {p : String × Entry} (hp : p ∈ (w.info (.native n)).entries) :
    w.HoldsEntry p.2 := by
  obtain ⟨q, -, rfl⟩ := List.mem_map.mp hp
  trivial

namespace Keeps

theorem refl (w : World) : w.Keeps w := (Grows.refl w).keeps

theorem trans (h : w.Keeps v) (h' : v.Keeps u) : w.Keeps u where
  classes := h'.classes.trans h.classes
  functions := h'.functions.trans h.functions
  dropped := h'.dropped.trans h.dropped
  cells i x hx := by
    obtain ⟨y, hy, hxy⟩ := h.cells i x hx
    obtain ⟨z, hz, hyz⟩ := h'.cells i y hy
    exact ⟨z, hz, hxy.trans hyz⟩
  descriptors id d hd := h'.descriptors id d (h.descriptors id d hd)
  registry hs := by
    obtain ⟨hsv, hv⟩ := h.registry hs
    obtain ⟨hsu, hu⟩ := h'.registry hsv
    exact ⟨hsu, fun c => (hu c).trans (hv c)⟩

theorem info (h : w.Keeps v) (c : ClassId) : v.info c = w.info c := info_congr h.classes c

theorem ancestry (h : w.Keeps v) (c : ClassId) : v.ancestry c = w.ancestry c :=
  ancestry_congr h.classes c

theorem isAlive (h : w.Keeps v) (c : ClassId) : v.isAlive c = w.isAlive c := by
  simp only [World.isAlive, isSubclass_congr h.classes, h.dropped, h.classes]

theorem function? (h : w.Keeps v) (i : Nat) : v.function? i = w.function? i := by
  simp only [World.function?, h.functions]

theorem functionCode? (h : w.Keeps v) (i : Nat) : v.functionCode? i = w.functionCode? i := by
  simp only [World.functionCode?, h.function?]

theorem classOf (h : w.Keeps v) (hr : w.Has r) : v.classOf r = w.classOf r := by
  cases r with
  | cell i =>
      have hlt : i < w.cells.size := hr
      obtain ⟨y, hy, hxy⟩ := h.cells i _ (Array.getElem?_eq_getElem hlt)
      simp only [World.classOf, hy, Array.getElem?_eq_getElem hlt, Option.elim_some, hxy.cls]
  | entry c key => simp only [World.classOf, h.info]
  | _ => rfl

/-- What can be called stays what it is, and nothing else becomes what can be called. -/
theorem body (h : w.Keeps v) (hr : w.Has r) :
    v.body r = w.body r ∨ (w.body r).isRoutine = false ∧ (v.body r).isRoutine = false := by
  cases r with
  | cell i =>
      have hlt : i < w.cells.size := hr
      obtain ⟨y, hy, hxy⟩ := h.cells i _ (Array.getElem?_eq_getElem hlt)
      simp only [World.body, hy, Array.getElem?_eq_getElem hlt, Option.elim_some]
      exact hxy.body
  | entry c key => exact .inl (by simp only [World.body, h.info])
  | _ => exact .inl rfl

theorem isRoutine (h : w.Keeps v) (hr : w.Has r) : v.isRoutine r = w.isRoutine r := by
  rw [isRoutine_eq, isRoutine_eq]
  rcases h.body hr with hb | ⟨hw, hv⟩
  · rw [hb]
  · rw [hw, hv]

theorem routineCode? (h : w.Keeps v) (code : Routine) : v.routineCode? code = w.routineCode? code := by
  cases code with
  | function i => exact h.functionCode? i
  | _ => rfl

theorem codeOf? (h : w.Keeps v) (hr : w.Has r) (hf : ∀ x f, w.body r = .bound x f → w.Has f) :
    v.codeOf? r = w.codeOf? r := by
  unfold World.codeOf?
  rcases h.body hr with hb | ⟨hw, hv⟩
  · rw [hb]
    cases hbody : w.body r with
    | routine code => exact h.routineCode? code
    | bound x f =>
        rcases h.body (hf x f hbody) with hb' | ⟨hw, hv⟩
        · simp only [hb', h.routineCode?]
        · cases hw' : w.body f <;> cases hv' : v.body f <;> simp_all [Body.isRoutine]
    | _ => rfl
  · cases hw' : w.body r <;> cases hv' : v.body r <;> simp_all [Body.isRoutine]

theorem declared (h : w.Keeps v) (hh : w.HoldsEntries c) (hc : a ∈ w.ancestry c) :
    v.declared a = w.declared a := by
  have hoverrides : v.hasEntry = w.hasEntry := by
    funext key b
    simp only [hasEntry, h.info]
  have hfilter : ((w.info a).entries.filter fun p => v.isOperation p.2) =
      (w.info a).entries.filter fun p => w.isOperation p.2 := by
    refine List.filter_congr fun p hp => ?_
    have hholds := hh a hc p hp
    cases hentry : p.2 with
    | value r =>
        rw [hentry] at hholds
        exact h.isRoutine hholds.1
    | native owner member => cases member <;> rfl
    | _ => rfl
  simp only [World.declared, h.info, h.ancestry, hoverrides]
  rw [hfilter]

theorem entryCode? (h : w.Keeps v) {key : String} {e : Entry} (he : w.HoldsEntry e) :
    v.entryCode? key e = w.entryCode? key e := by
  cases e with
  | value r | classLevel r | static r => exact h.codeOf? he.1 he.2
  | native owner member =>
      cases member with
      | operation binding coded isAbstract => cases coded <;> rfl
      | data => rfl
  | _ => rfl

end Keeps

/-! ## Steps of a program -/

/-- What a program does to a world in one step: it makes an object, changes what an object holds, asks for the type
of a class, or leaves a record. -/
inductive Acts : World → World → Prop where
  | alloc (w : World) (cell : Cell) : Acts w { w with cells := w.cells.push cell }
  | edit (w : World) (address : Nat) (f : Cell → Cell)
      (h : ∀ x, w.cells[address]? = some x → x.Becomes (f x)) :
      Acts w { w with cells := w.cells.modify address f }
  | register (w : World) (c : ClassId) :
      Acts w { w with registry := (w.registry.register c (w.info c).fullName (w.info c).name).1 }
  | record (w : World) (config : Config) (log : LogBook) : Acts w { w with config := config, log := log }

abbrev Evolves : World → World → Prop := Relation.ReflTransGen Acts

theorem keeps_modifyCells {address : Nat} {f : Cell → Cell}
    (hf : ∀ x, w.cells[address]? = some x → x.Becomes (f x)) :
    w.Keeps { w with cells := w.cells.modify address f } where
  classes := rfl
  functions := rfl
  dropped := rfl
  cells i x hx := by
    refine ⟨if address = i then f x else x, ?_, ?_⟩
    · change (w.cells.modify address f)[i]? = _
      rw [Array.getElem?_modify, hx]
      split <;> rfl
    · split
      · rename_i hi
        exact hf x (hi ▸ hx)
      · exact .refl x
  descriptors _ _ hd := hd
  registry hs := ⟨hs, fun c => by cases c <;> rfl⟩

/-- The log and the configuration are apart from all that is kept. -/
theorem keeps_records (w : World) (config : Config) (log : LogBook) :
    w.Keeps { w with config := config, log := log } :=
  ⟨rfl, rfl, rfl, fun _ x hx => ⟨x, hx, .refl x⟩, fun _ _ hd => hd,
    fun hs => ⟨hs, fun c => by cases c <;> rfl⟩⟩

theorem Acts.keeps (h : w.Acts v) : w.Keeps v := by
  cases h with
  | alloc cell => exact (Leads.alloc w cell).grows.keeps
  | edit address f hf => exact keeps_modifyCells hf
  | register c => exact (Leads.register w c).grows.keeps
  | record config log => exact keeps_records w config log

theorem Evolves.keeps (h : w.Evolves v) : w.Keeps v := by
  induction h with
  | refl => exact .refl w
  | tail _ hstep ih => exact ih.trans hstep.keeps

/-! ## Computations -/

/-- The world that a computation leaves. -/
def after (m : Act α) (w : World) : World :=
  match m w with
  | .ok _ v => v
  | .error _ v => v

end World

open World

/-- Whatever the computation ends with, it takes steps of a program alone, which keep every world. -/
class Keeping (m : Act α) : Prop where
  evolves : ∀ w : World, w.Evolves (after m w)

namespace Keeping

theorem evolves_of_ok {m : Act α} [h : Keeping m] {w v : World} {a : α} (hm : m w = .ok a v) : w.Evolves v := by
  have hk := h.evolves w
  rw [after, hm] at hk
  exact hk

theorem of_ok {m : Act α} [Keeping m] {w v : World} {a : α} (hm : m w = .ok a v) : w.Keeps v :=
  (evolves_of_ok hm).keeps

instance pure (a : α) : Keeping (Pure.pure a : Act α) := ⟨fun _ => .refl⟩

instance throw (fault : Fault) : Keeping (MonadExcept.throw fault : Act α) := ⟨fun _ => .refl⟩

instance throwBind (fault : Fault) (f : α → Act β) :
    Keeping (MonadExcept.throw fault >>= f) := ⟨fun _ => .refl⟩

instance get : Keeping (MonadState.get : Act World) := ⟨fun _ => .refl⟩

instance bind {m : Act α} {f : α → Act β} [hm : Keeping m] [hf : ∀ a, Keeping (f a)] :
    Keeping (m >>= f) := by
  constructor
  intro w
  have hk := hm.evolves w
  unfold after at hk ⊢
  cases h : m w with
  | ok a v =>
      rw [h] at hk
      rw [run_bind_ok h]
      exact hk.trans ((hf a).evolves v)
  | error fault v =>
      rw [h] at hk
      rw [run_bind_error h]
      exact hk

theorem andThen {m : Act α} {f : α → Act β} [Keeping m] (hf : ∀ a, Keeping (f a)) : Keeping (m >>= f) :=
  Keeping.bind

instance ite {m m' : Act α} {p : Prop} [Decidable p] [Keeping m] [Keeping m'] :
    Keeping (if p then m else m') := by split <;> infer_instance

instance mapM {l : List σ} {f : σ → Act α} [hf : ∀ x, Keeping (f x)] : Keeping (l.mapM f) := by
  induction l with
  | nil => exact .pure _
  | cons x rest ih =>
      rw [List.mapM_cons]
      infer_instance

instance forM {l : List σ} {f : σ → Act PUnit} [hf : ∀ x, Keeping (f x)] :
    Keeping (l.forM f) := by
  induction l with
  | nil => exact .pure _
  | cons x rest ih =>
      change Keeping (f x >>= fun _ => rest.forM f)
      infer_instance

instance tryCatch {m : Act α} {f : Fault → Act α} [hm : Keeping m] [hf : ∀ fault, Keeping (f fault)] :
    Keeping (MonadExcept.tryCatch m f) := by
  constructor
  intro w
  have hk := hm.evolves w
  change w.Evolves (after (EStateM.tryCatch m f) w)
  unfold after at hk ⊢
  unfold EStateM.tryCatch
  cases h : m w with
  | ok a v =>
      rw [h] at hk
      exact hk
  | error fault v =>
      rw [h] at hk
      exact hk.trans ((hf fault).evolves v)

instance liftExcept (x : Except Fault α) : Keeping (Act.liftExcept x) := by
  cases x <;> exact ⟨fun _ => .refl⟩

instance alloc (cell : Cell) : Keeping (Act.alloc cell) :=
  ⟨fun w => .single (.alloc w cell)⟩

instance fresh (n : Native) (body : Body) : Keeping (Act.fresh n body) := Keeping.alloc _

instance atom (a : Atom) : Keeping (Act.atom a) := by
  unfold Act.atom
  infer_instance

instance text (s : String) : Keeping (Act.text s) := Keeping.atom _

instance list (items : List Ref) : Keeping (Act.list items) := Keeping.alloc _

instance tuple (items : List Ref) : Keeping (Act.tuple items) := by
  unfold Act.tuple
  infer_instance

instance modifyLog (f : LogBook → LogBook) : Keeping (Act.modifyLog f) :=
  ⟨fun w => .single (.record w w.config (f w.log))⟩

instance config (x : Config.Act α) : Keeping (Act.config x) := by
  constructor
  intro w
  unfold after Act.config
  cases x w.config with
  | ok a c => exact .single (.record w c w.log)
  | error fault c => exact .single (.record w c w.log)

end Keeping

end Introspect
