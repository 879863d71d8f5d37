import Mathlib.Order.Filter.AtTopBot.Basic
import Introspect.Proofs.World.Growth
/-!
Computations with a lasting answer. Such a computation answers the same, or fails in the same way,
however much the world has grown before it, and only lets the world grow itself.
-/
namespace Introspect

variable {α β σ : Type}

/-- How a computation ends that answers or fails and leaves a world behind. -/
def ending : Except Fault α → World → EStateM.Result Fault World α
  | .ok a, v => .ok a v
  | .error fault, v => .error fault v

namespace World

/-- The computation ends alike in every world that grows from this one, and leaves a world that grows
from there. -/
def Steady (b : World) (m : Act α) (res : Except Fault α) : Prop :=
  ∀ v, b.Leads v → ∃ u, v.Leads u ∧ m v = ending res u

/-- The computation is steady under every limit of nesting that is large enough. -/
def Settles (w : World) (m : Act α) (res : Except Fault α) : Prop :=
  ∀ᶠ n in Filter.atTop, (w.limited n).Steady m res

namespace Steady

variable {b b' : World} {m : Act α} {x y : Except Fault α}

theorem mono (h : b.Steady m x) (hb : b.Leads b') : b'.Steady m x :=
  fun v hv => h v (hb.trans hv)

theorem pure (b : World) (a : α) : b.Steady (Pure.pure a) (.ok a) :=
  fun v _ => ⟨v, .refl v, rfl⟩

theorem throw (b : World) (fault : Fault) : b.Steady (MonadExcept.throw fault) (.error fault : Except Fault α) :=
  fun v _ => ⟨v, .refl v, rfl⟩

theorem bind {f : α → Act β} {g : α → Except Fault β} (hm : b.Steady m x)
    (hf : ∀ a, x = .ok a → b.Steady (f a) (g a)) : b.Steady (m >>= f) (x >>= g) := by
  intro v hv
  obtain ⟨u, hu, he⟩ := hm v hv
  cases x with
  | error fault =>
      refine ⟨u, hu, ?_⟩
      change EStateM.bind m f v = _
      simp only [EStateM.bind, he, ending]; rfl
  | ok a =>
      obtain ⟨u', hu', he'⟩ := hf a rfl u (hv.trans hu)
      refine ⟨u', hu.trans hu', ?_⟩
      change EStateM.bind m f v = _
      simp only [EStateM.bind, he, ending]; exact he'

/-- What follows may be steady only after the first computation, for whatever that answers. -/
theorem through {f : α → Act β} {y : Except Fault β}
    (h : ∀ v, b.Leads v → ∃ u a, v.Leads u ∧ m v = .ok a u ∧ u.Steady (f a) y) :
    b.Steady (m >>= f) y := by
  intro v hv
  obtain ⟨u, a, hu, he, hf⟩ := h v hv
  obtain ⟨u', hu', he'⟩ := hf u (.refl u)
  refine ⟨u', hu.trans hu', ?_⟩
  change EStateM.bind m f v = _
  simp only [EStateM.bind, he]; exact he'

theorem get {f : World → Act β} {y : Except Fault β}
    (h : ∀ v, b.Leads v → v.Steady (f v) y) : b.Steady (MonadState.get >>= f) y :=
  fun v hv => h v hv v (.refl v)

theorem map {f : α → β} (h : b.Steady m x) : b.Steady (f <$> m) (f <$> x) := by
  rw [← bind_pure_comp]
  have hx : f <$> x = x >>= fun a => .ok (f a) := by cases x <;> rfl
  rw [hx]
  exact h.bind fun a _ => .pure b (f a)

theorem mapM {l : List σ} {f : σ → Act α} {g : σ → Except Fault α} (h : ∀ x ∈ l, b.Steady (f x) (g x)) :
    b.Steady (l.mapM f) (l.mapM g) := by
  induction l with
  | nil => exact .pure b []
  | cons x rest ih =>
      have ih := ih fun x hx => h x (List.mem_cons_of_mem _ hx)
      rw [List.mapM_cons, List.mapM_cons]
      exact (h x List.mem_cons_self).bind fun a _ => ih.bind fun found _ => .pure b (a :: found)

theorem congr {m' : Act α} (hm : ∀ v, b.Leads v → m' v = m v) (h : b.Steady m x) : b.Steady m' x :=
  fun v hv => hm v hv ▸ h v hv

/-- A run that answers gives the lasting answer. -/
theorem of_run {v u : World} {a : α} (h : b.Steady m x) (hv : b.Leads v) (hrun : m v = .ok a u) :
    x = .ok a ∧ v.Leads u := by
  obtain ⟨u', hu, he⟩ := h v hv
  rw [hrun] at he
  cases x with
  | error fault => cases he
  | ok a =>
      cases he
      exact ⟨rfl, hu⟩

theorem unique (h : b.Steady m x) (h' : b.Steady m y) : x = y := by
  obtain ⟨u, _, hu⟩ := h b (.refl b)
  obtain ⟨u', _, hu'⟩ := h' b (.refl b)
  rw [hu] at hu'
  cases x <;> cases y <;> simp_all [ending]

end Steady

namespace Settles

variable {w : World} {m : Act α} {x y : Except Fault α}

theorem of_steady (h : ∀ n, (w.limited n).Steady m x) : w.Settles m x := .of_forall h

theorem unique (h : w.Settles m x) (h' : w.Settles m y) : x = y := by
  obtain ⟨n, hn, hn'⟩ := (h.and h').exists
  exact hn.unique hn'

end Settles

/-- What a computation answers if its answer lasts. -/
noncomputable def answer (w : World) (m : Act α) : Except Fault α :=
  open Classical in if h : ∃ x, w.Settles m x then h.choose else .error .nesting

theorem Settles.answer_eq {w : World} {m : Act α} {x : Except Fault α} (h : w.Settles m x) :
    w.answer m = x := by
  have hex : ∃ x, w.Settles m x := ⟨x, h⟩
  simp only [answer, hex, ↓reduceDIte]
  exact hex.choose_spec.unique h

theorem settles_answer {w : World} {m : Act α} (h : ∃ x, w.Settles m x) :
    w.Settles m (w.answer m) := by
  obtain ⟨x, hx⟩ := h
  rw [hx.answer_eq]
  exact hx

/-! ## Single runs -/

section Runs

variable {m : EStateM Fault σ α} {f : α → EStateM Fault σ β} {v u : σ} {a : α} {b : β}

theorem run_bind (h : (m >>= f) v = .ok b u) :
    ∃ a v', m v = .ok a v' ∧ f a v' = .ok b u := by
  change EStateM.bind m f v = _ at h
  unfold EStateM.bind at h
  cases hm : m v with
  | ok a v' =>
      rw [hm] at h
      exact ⟨a, v', rfl, h⟩
  | error fault v' =>
      rw [hm] at h
      cases h

theorem run_bind_ok (h : m v = .ok a u) : (m >>= f) v = f a u := by
  change EStateM.bind m f v = _
  simp only [EStateM.bind, h]

theorem run_get {f : σ → EStateM Fault σ β} : (get >>= f) v = f v v := rfl

theorem run_bind_error {fault : Fault} (h : m v = .error fault u) : (m >>= f) v = .error fault u := by
  change EStateM.bind m f v = _
  simp only [EStateM.bind, h]

theorem run_map_ok {g : α → β} (h : m v = .ok a u) : (g <$> m) v = .ok (g a) u := by
  change EStateM.map g m v = _
  simp only [EStateM.map, h]

end Runs

theorem Settles.exists_run {w : World} {m : Act α} {a : α} (h : w.Settles m (.ok a)) :
    ∃ n u, m (w.limited n) = .ok a u := by
  obtain ⟨n, hn⟩ := h.exists
  obtain ⟨u, -, hrun⟩ := hn (w.limited n) (.refl _)
  exact ⟨n, u, hrun⟩

/-- What a computation answers on a world, under the limit of that world. -/
def answered (m : Act α) (w : World) : Option α :=
  match m w with
  | .ok a _ => some a
  | .error .. => none

theorem answered_iff {m : Act α} {w : World} {a : α} : answered m w = some a ↔ ∃ v, m w = .ok a v := by
  rw [answered]
  cases m w <;> simp

def failed (m : Act α) (w : World) : Option Fault :=
  match m w with
  | .ok .. => none
  | .error fault _ => some fault

/-! ## Computations with a state of their own -/

/-- A computation with a state on a world does as one on no world does. -/
def Follows (b : World) (m : StateT σ Act α) (p : StateT σ (Except Fault) α) : Prop :=
  ∀ s, b.Steady (m.run s) (p.run s)

namespace Follows

variable {b : World} {m : StateT σ Act α} {p : StateT σ (Except Fault) α}

theorem pure (b : World) (a : α) : b.Follows (σ := σ) (Pure.pure a) (Pure.pure a) :=
  fun s => .pure b (a, s)

theorem bind {f : α → StateT σ Act β} {g : α → StateT σ (Except Fault) β} (hm : b.Follows m p)
    (hf : ∀ a, b.Follows (f a) (g a)) : b.Follows (m >>= f) (p >>= g) := by
  intro s
  simp only [StateT.run_bind]
  exact (hm s).bind fun a _ => hf a.1 a.2

theorem mono {b' : World} (h : b.Follows m p) (hb : b.Leads b') : b'.Follows m p :=
  fun s => (h s).mono hb

theorem run_lift (m : Act α) (s : σ) : (liftM m : StateT σ Act α).run s = (·, s) <$> m := by
  simp [StateT.run, liftM, monadLift, MonadLift.monadLift, StateT.lift, bind_pure_comp]

theorem lift {a : Act α} {x : Except Fault α} (h : b.Steady a x) :
    b.Follows (σ := σ) (liftM a) (liftM x) := by
  intro s
  have hx : (liftM x : StateT σ (Except Fault) α).run s = (·, s) <$> x := by
    simp [StateT.run, liftM, monadLift, MonadLift.monadLift, StateT.lift, bind_pure_comp]
  rw [run_lift, hx]
  exact h.map

theorem reading {m : Act α} {x : α} {f : α → StateT σ Act β} {q : StateT σ (Except Fault) β}
    (h : b.Steady m (.ok x)) (hf : b.Follows (f x) q) : b.Follows (liftM m >>= f) q := by
  intro s
  rw [StateT.run_bind, run_lift]
  refine (h.map (f := (·, s))).bind (g := fun _ => q.run s) fun p hp => ?_
  cases hp
  exact hf s

theorem getWorld {f : World → StateT σ Act β} {q : StateT σ (Except Fault) β}
    (h : ∀ v, b.Leads v → v.Follows (f v) q) : b.Follows (getThe World >>= f) q :=
  fun s v hv => h v hv s v (.refl v)

theorem getState {f : σ → StateT σ Act β} {g : σ → StateT σ (Except Fault) β}
    (h : ∀ s, b.Follows (f s) (g s)) : b.Follows (get >>= f) (get >>= g) :=
  fun s => h s s

theorem modifyState (b : World) (f : σ → σ) : b.Follows (modify f) (modify f) :=
  fun s => .pure b ((), f s)

end Follows

end World

end Introspect
