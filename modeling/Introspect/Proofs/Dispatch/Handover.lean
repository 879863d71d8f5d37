import Introspect.Proofs.Dispatch.Keeping
/-!
How the evaluation of a body comes to a call of the next implementation. What is evaluated before that
call answers, and what the call fails with is what the body fails with.
-/
namespace Introspect.Dispatch

open World

/-- A call of the next implementation: with these arguments, in this world, and under this limit for
what it asks. -/
structure Handover where
  depth : Nat
  args : List Ref
  keywords : List (String × Ref)
  world : World

def evalKeywords (ask : Ask) (frame : Frame) (keywords : List (String × Expr Ref)) :
    Act (List (String × Ref)) :=
  keywords.mapM fun (name, e) => do return (name, ← ask (.eval frame e))

/-- The evaluation of an expression under a limit of nesting comes to a call of the next implementation
on the receiver. -/
inductive Comes : Nat → Frame → Expr Ref → World → Handover → Prop where
  | super {d frame args keywords v rs v₁ ks v₂} :
      evalAll (perform d) frame args v = .ok rs v₁ →
      evalKeywords (perform d) frame keywords v₁ = .ok ks v₂ →
      Comes (d + 1) frame (.super args keywords none false) v ⟨d, rs, ks, v₂⟩
  | get {d frame e name v h} : Comes d frame e v h → Comes (d + 1) frame (.get e name) v h
  | list {d frame before e later v rs v₁ h} : evalAll (perform d) frame before v = .ok rs v₁ →
      Comes d frame e v₁ h → Comes (d + 1) frame (.list (before ++ e :: later)) v h
  | addLeft {d frame a b v h} : Comes d frame a v h → Comes (d + 1) frame (.add a b) v h
  | addRight {d frame a b v x v₁ h} : perform d (.eval frame a) v = .ok x v₁ →
      Comes d frame b v₁ h → Comes (d + 1) frame (.add a b) v h
  | equalLeft {d frame a b v h} : Comes d frame a v h → Comes (d + 1) frame (.equal a b) v h
  | equalRight {d frame a b v x v₁ h} : perform d (.eval frame a) v = .ok x v₁ →
      Comes d frame b v₁ h → Comes (d + 1) frame (.equal a b) v h
  | text {d frame e v h} : Comes d frame e v h → Comes (d + 1) frame (.text e) v h
  | isInstance {d frame e cls v h} : Comes d frame e v h → Comes (d + 1) frame (.isInstance e cls) v h
  | className {d frame e v h} : Comes d frame e v h → Comes (d + 1) frame (.className e) v h
  | test {d frame c t e v h} : Comes d frame c v h → Comes (d + 1) frame (.cond c t e) v h
  | branch {d frame c t e v x v₁ b v₂ h} : perform d (.eval frame c) v = .ok x v₁ →
      (perform d).isTrue x v₁ = .ok b v₂ → Comes d frame (if b then t else e) v₂ h →
      Comes (d + 1) frame (.cond c t e) v h
  | callee {d frame e name args v h} : Comes d frame e v h → Comes (d + 1) frame (.call e name args) v h
  | argument {d frame e name before a later v x v₁ f v₂ rs v₃ h} :
      perform d (.eval frame e) v = .ok x v₁ → perform d (.attribute x name) v₁ = .ok f v₂ →
      evalAll (perform d) frame before v₂ = .ok rs v₃ → Comes d frame a v₃ h →
      Comes (d + 1) frame (.call e name (before ++ a :: later)) v h

/-- The call of the next implementation on the receiver, where the function runs. -/
def Handover.run (h : Handover) (r : Ref) (function : Nat) : Act Ref := fun w =>
  callParent (perform h.depth) (some (.function function)) ((w.function? function).elim "" (·.name)) .asData
    r h.args h.keywords w

variable {d : Nat} {frame : Frame} {e : Expr Ref} {v u : World} {h : Handover} {fault : Fault}

theorem evalAll_error {before later : List (Expr Ref)} {rs : List Ref} {v₁ : World}
    (hbefore : evalAll (perform d) frame before v = .ok rs v₁)
    (he : perform d (.eval frame e) v₁ = .error fault u) :
    evalAll (perform d) frame (before ++ e :: later) v = .error fault u := by
  induction before generalizing v rs with
  | nil =>
      cases hbefore
      rw [List.nil_append, evalAll, List.mapM_cons, run_bind_error he]
  | cons a before ih =>
      rw [evalAll, List.mapM_cons] at hbefore
      obtain ⟨x, v', hx, hrest⟩ := run_bind hbefore
      obtain ⟨xs, v'', hxs, hpure⟩ := run_bind hrest
      cases hpure
      rw [List.cons_append, evalAll, List.mapM_cons]
      exact (run_bind_ok hx).trans (run_bind_error (ih hxs))

/-- What the call fails with is what the evaluation fails with. -/
theorem Comes.eval_error (hcomes : Comes d frame e v h)
    (hrun : h.run (receiverOf frame) frame.function h.world = .error fault u) :
    perform d (.eval frame e) v = .error fault u := by
  induction hcomes with
  | super hargs hkeywords => exact (run_bind_ok hargs).trans ((run_bind_ok hkeywords).trans hrun)
  | get _ ih => exact run_bind_error (ih hrun)
  | list hbefore _ ih => exact run_bind_error (evalAll_error hbefore (ih hrun))
  | addLeft _ ih => exact run_bind_error (ih hrun)
  | addRight ha _ ih => exact (run_bind_ok ha).trans (run_bind_error (ih hrun))
  | equalLeft _ ih => exact run_bind_error (ih hrun)
  | equalRight ha _ ih => exact (run_bind_ok ha).trans (run_bind_error (ih hrun))
  | text _ ih => exact run_bind_error (ih hrun)
  | isInstance _ ih => exact run_bind_error (ih hrun)
  | className _ ih => exact run_bind_error (ih hrun)
  | test _ ih => exact run_bind_error (ih hrun)
  | @branch _ _ _ _ _ _ _ _ b _ _ hc hb _ ih =>
      refine (run_bind_ok hc).trans ((run_bind_ok hb).trans ?_)
      have hbranch := ih hrun
      cases b <;> exact hbranch
  | callee _ ih => exact run_bind_error (ih hrun)
  | argument he hf hbefore _ ih =>
      exact (run_bind_ok he).trans ((run_bind_ok hf).trans (run_bind_error (evalAll_error hbefore (ih hrun))))

instance keeping_evalKeywords (ask : Ask) [ask.Keeping] (keywords : List (String × Expr Ref)) :
    Keeping (evalKeywords ask frame keywords) := by
  unfold evalKeywords
  infer_instance

theorem Comes.keeps (hcomes : Comes d frame e v h) : v.Keeps h.world := by
  induction hcomes with
  | super hargs hkeywords => exact (Keeping.of_ok hargs).trans (Keeping.of_ok hkeywords)
  | list hbefore _ ih => exact (Keeping.of_ok hbefore).trans ih
  | addRight ha _ ih | equalRight ha _ ih => exact (Keeping.of_ok ha).trans ih
  | branch hc hb _ ih => exact (Keeping.of_ok hc).trans ((Keeping.of_ok hb).trans ih)
  | argument he hf hbefore _ ih =>
      exact (Keeping.of_ok he).trans ((Keeping.of_ok hf).trans ((Keeping.of_ok hbefore).trans ih))
  | _ => assumption

end Introspect.Dispatch
