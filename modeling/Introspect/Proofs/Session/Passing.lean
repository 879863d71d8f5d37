import Introspect.Dispatch.Items
import Introspect.Proofs.Reflect.Keeping
import Introspect.Proofs.World.Turning
import Introspect.Session.Classes
import Introspect.Taint
/-!
What can be done to a world from outside a program: objects and classes are changed directly. Whatever such a
computation ends with, the world has passed from one turn to the next.
-/
namespace Introspect

open World

variable {α β σ : Type}

/-- Whatever the computation ends with, the world has passed on. -/
class Passing (m : Act α) : Prop where
  passes : ∀ w : World, w.Passes (after m w)

namespace Passing

instance (priority := low) ofKeeping {m : Act α} [h : Keeping m] : Passing m := ⟨fun w => (h.evolves w).passes⟩

theorem single {f : World → World} (h : ∀ w : World, w.Turns (f w)) : Passing (modify f : Act PUnit) := ⟨fun w => .single (h w)⟩

instance bind {m : Act α} {f : α → Act β} [hm : Passing m] [hf : ∀ a, Passing (f a)] : Passing (m >>= f) := by
  constructor
  intro w
  have hp := hm.passes w
  unfold after at hp ⊢
  cases h : m w with
  | ok a v =>
      rw [h] at hp
      rw [run_bind_ok h]
      exact hp.trans ((hf a).passes v)
  | error fault v =>
      rw [h] at hp
      rw [run_bind_error h]
      exact hp

theorem andThen {m : Act α} {f : α → Act β} [Passing m] (hf : ∀ a, Passing (f a)) : Passing (m >>= f) :=
  Passing.bind

instance ite {m m' : Act α} {p : Prop} [Decidable p] [Passing m] [Passing m'] : Passing (if p then m else m') := by
  split <;> infer_instance

instance forM {l : List σ} {f : σ → Act PUnit} [hf : ∀ x, Passing (f x)] : Passing (l.forM f) := by
  induction l with
  | nil => exact Passing.ofKeeping (m := pure PUnit.unit)
  | cons x rest ih =>
      change Passing (f x >>= fun _ => rest.forM f)
      infer_instance

/-! ## What objects hold -/

instance modifyCell (address : Nat) (f : Cell → Cell) : Passing (Act.modifyCell address f) :=
  .single fun w => .store w address f

instance setBody (r : Ref) (body : Body) : Passing (Dispatch.setBody r body) := by
  unfold Dispatch.setBody
  split <;> infer_instance

instance index (key : Ref) : Keeping (Dispatch.index key) := by
  unfold Dispatch.index
  refine .andThen fun w => ?_
  split <;> infer_instance

instance place (size : Nat) (i : Int) : Keeping (Dispatch.place size i) := by
  unfold Dispatch.place
  infer_instance

instance byteOf (r : Ref) : Keeping (Dispatch.byteOf r) := by
  unfold Dispatch.byteOf
  refine .andThen fun w => ?_
  split <;> infer_instance

instance refuseItem (r key : Ref) : Keeping (Dispatch.refuseItem r key) := by
  unfold Dispatch.refuseItem
  refine .andThen fun w => ?_
  split <;> infer_instance

instance setNativeItem (r key value : Ref) : Passing (Dispatch.setNativeItem r key value) := by
  unfold Dispatch.setNativeItem
  refine .andThen fun w => ?_
  split <;> infer_instance

instance deleteNativeItem (r key : Ref) : Passing (Dispatch.deleteNativeItem r key) := by
  unfold Dispatch.deleteNativeItem
  refine .andThen fun w => ?_
  split <;> infer_instance

instance appendNative (r value : Ref) : Passing (Dispatch.appendNative r value) := by
  unfold Dispatch.appendNative
  refine .andThen fun w => ?_
  split <;> infer_instance

instance addNative (r value : Ref) : Passing (Dispatch.addNative r value) := by
  unfold Dispatch.addNative
  refine .andThen fun w => ?_
  split <;> infer_instance

instance hookedOr (r : Ref) (hook : String) (args : List Ref) (native : Act Unit) [Passing native] :
    Passing (Dispatch.hookedOr Dispatch.ask r hook args native) := by
  unfold Dispatch.hookedOr
  refine .andThen fun w => ?_
  split <;> infer_instance

instance storeAttribute (address : Nat) (name : String) (value : Ref) :
    Passing (Act.storeAttribute address name value) := by
  unfold Act.storeAttribute
  refine .andThen fun w => ?_
  split
  · infer_instance
  · split
    case h_3 => split <;> infer_instance
    all_goals infer_instance

instance setAttribute (r : Ref) (name : String) (value : Ref) : Passing (Act.setAttribute r name value) := by
  unfold Act.setAttribute
  split <;> infer_instance

instance mark (r value : Ref) (before after : Bool) (message : String) :
    Passing (Taint.mark r value before after message) := by
  unfold Taint.mark
  split
  · split <;> infer_instance
  · infer_instance

instance taint (r : Ref) : Passing (Taint.taint r) := by
  unfold Taint.taint
  refine .andThen fun w => ?_
  split <;> infer_instance

instance untaint (r : Ref) : Passing (Taint.untaint r) := by
  unfold Taint.untaint
  refine .andThen fun w => ?_
  split <;> infer_instance

/-! ## Classes that change -/

theorem modifyClass {i : Nat} {f : ClassInfo → ClassInfo} (h : ∀ x, (f x).ancestry = x.ancestry) :
    Passing (modify (World.modifyClass i f) : Act PUnit) :=
  .single fun w => .change w i f h

instance putEntry (i : Nat) (key : String) (e : Entry) : Passing (modify (World.putEntry i key e) : Act PUnit) :=
  modifyClass fun _ => rfl

instance unbindClass (c : ClassId) : Passing (modify (World.unbindClass c) : Act PUnit) := .single fun w => .unbind w c

instance bindName (moduleName name : String) (r : Ref) : Passing (modify (World.bind moduleName name r) : Act PUnit) :=
  .single fun w => .rebind w _

instance bindClass (moduleName qualname : String) (c : ClassId) :
    Passing (Act.bindClass Dispatch.ask moduleName qualname c) := by
  unfold Act.bindClass
  dsimp only
  split
  · infer_instance
  · refine .andThen fun holder => ?_
    split <;> infer_instance

instance assignEntry (c : ClassId) (key : String) (e : Entry) : Passing (Act.assignEntry c key e) := by
  unfold Act.assignEntry
  split
  · infer_instance
  · refine .andThen fun w => ?_
    split
    case h_1 | h_2 | h_5 => exact modifyClass fun _ => rfl
    all_goals infer_instance

instance eraseEntry (c : ClassId) (key : String) : Passing (Act.eraseEntry c key) := by
  unfold Act.eraseEntry
  split
  · infer_instance
  · have herase (i : Nat) : Passing (modify (World.modifyClass i fun info =>
        { info with entries := Pairs.erase key info.entries }) : Act PUnit) := modifyClass fun _ => rfl
    infer_instance

instance assignAttribute (r : Ref) (name : String) (value : Ref) :
    Passing (Dispatch.assignAttribute Dispatch.ask r name value) := by
  unfold Dispatch.assignAttribute
  split <;> infer_instance

/-! ## Values -/

instance members (items : List Ref) : Keeping (Act.members items) := by
  unfold Act.members
  infer_instance

instance entries (pairs : List (Ref × Ref)) : Keeping (Act.entries pairs) := by
  unfold Act.entries
  infer_instance

instance collection (kind : Native) (items : List Ref) : Keeping (Act.collection kind items) := by
  unfold Act.collection
  split <;> infer_instance

instance mapping (kind : Native) (pairs : List (Ref × Ref)) : Keeping (Act.mapping kind pairs) := by
  unfold Act.mapping
  infer_instance

instance box (value : Ref) (tainted : Bool) : Keeping (Act.box value tainted) := by
  unfold Act.box
  infer_instance

instance classNamed (id : String) : Keeping (Act.classNamed id) := by
  unfold Act.classNamed
  refine .andThen fun w => ?_
  split <;> infer_instance

instance routineNamed (name : String) : Keeping (Act.routineNamed name) := by
  unfold Act.routineNamed
  split <;> infer_instance

instance instanceOf (c : ClassId) (content : Option Ref) : Keeping (Act.instanceOf c content) := by
  unfold Act.instanceOf
  infer_instance

instance setAttributes (r : Ref) (attributes : List (String × Ref)) : Passing (Act.setAttributes r attributes) := by
  unfold Act.setAttributes
  infer_instance

end Passing

end Introspect
