import Introspect.Proofs.Equality.Forms
/-!
The comparison of two references without the world: what it asks for, one pair after the other, and how
it goes on from the answers.
-/
namespace Introspect.Equality

open World

/-- What remains of a comparison: its answer, or a pair whose answer decides how it goes on. -/
inductive Plan where
  | done (answer : Bool)
  | ask (a b : Ref) (next : Bool → Plan)

namespace Plan

variable {m : Type → Type} [Monad m]

def run (recur : Ref → Ref → m Bool) : Plan → m Bool
  | done answer => pure answer
  | ask a b next => do run recur (next (← recur a b))

def all : List (Option (Ref × Ref)) → Plan
  | [] => done true
  | none :: _ => done false
  | some (a, b) :: rest => ask a b fun equal => if equal then all rest else done false

/-- Goes on with the members without the first one that equals `x`. -/
def without (x : Ref) : List Ref → (Option (List Ref) → Plan) → Plan
  | [], next => next none
  | y :: rest, next =>
    ask x y fun equal =>
      if equal then next (some rest) else without x rest fun found => next (found.map (y :: ·))

/-- Each member of the first set takes an equal one out of the second. -/
def sets : List Ref → List Ref → Plan
  | [], _ => done true
  | x :: rest, remaining =>
    without x remaining fun
      | none => done false
      | some remaining => sets rest remaining

def Asks (P : Ref → Ref → Prop) : Plan → Prop
  | done _ => True
  | ask a b next => P a b ∧ ∀ answer, Asks P (next answer)

variable {P : Ref → Ref → Prop}

theorem Asks.all {pairs : List (Option (Ref × Ref))} (h : ∀ p ∈ pairs, ∀ q, p = some q → P q.1 q.2) :
    Asks P (all pairs) := by
  induction pairs with
  | nil => trivial
  | cons p rest ih =>
      have ih := ih fun p hp => h p (List.mem_cons_of_mem _ hp)
      cases p with
      | none => trivial
      | some q =>
          refine ⟨h _ List.mem_cons_self q rfl, fun answer => ?_⟩
          cases answer
          · trivial
          · exact ih

theorem Asks.without {x : Ref} {ys : List Ref} {next : Option (List Ref) → Plan}
    (h : ∀ y ∈ ys, P x y) (hnone : Asks P (next none))
    (hsome : ∀ rest, (∀ y ∈ rest, y ∈ ys) → Asks P (next (some rest))) :
    Asks P (without x ys next) := by
  induction ys generalizing next with
  | nil => exact hnone
  | cons y rest ih =>
      refine ⟨h y List.mem_cons_self, fun answer => ?_⟩
      cases answer
      · refine ih (fun y hy => h y (List.mem_cons_of_mem _ hy)) hnone fun found hfound => ?_
        refine hsome _ fun z hz => ?_
        exact (List.mem_cons.mp hz).elim (· ▸ List.mem_cons_self) fun hz =>
          List.mem_cons_of_mem _ (hfound z hz)
      · exact hsome rest fun z hz => List.mem_cons_of_mem _ hz

theorem Asks.sets {xs ys : List Ref} (h : ∀ x ∈ xs, ∀ y ∈ ys, P x y) : Asks P (sets xs ys) := by
  induction xs generalizing ys with
  | nil => trivial
  | cons x rest ih =>
      refine .without (h x List.mem_cons_self) trivial fun ys' hys' => ?_
      exact ih fun x' hx' y hy => h x' (List.mem_cons_of_mem _ hx') y (hys' y hy)

theorem Asks.mono {Q : Ref → Ref → Prop} (hPQ : ∀ a b, P a b → Q a b) {p : Plan} (h : Asks P p) :
    Asks Q p := by
  induction p with
  | done answer => trivial
  | ask a b next ih => exact ⟨hPQ a b h.1, fun answer => ih answer (h.2 answer)⟩

theorem run_all_cons (recur : Ref → Ref → m Bool) (x y : Ref) (rest : List (Option (Ref × Ref))) :
    (all (some (x, y) :: rest)).run recur =
      (do if ← recur x y then (all rest).run recur else return false) := by
  change (recur x y >>= _) = _
  congr 1
  funext equal
  cases equal <;> rfl

/-- A pair is answered first, and what has been seen then is passed on. -/
theorem run_ask {σ : Type} (recur : Ref → Ref → StateT σ (Except Fault) Bool) (x y : Ref) (next : Bool → Plan) (s : σ) :
    (ask x y next).run recur s = recur x y s >>= fun r => (next r.1).run recur r.2 := rfl

theorem run_ask_of_ok {σ : Type} {recur : Ref → Ref → StateT σ (Except Fault) Bool} {x y : Ref} {next : Bool → Plan}
    {s s' : σ} {e : Bool} (h : recur x y s = .ok (e, s')) : (ask x y next).run recur s = (next e).run recur s' := by
  rw [run_ask, h]
  rfl

/-- Where a pair is answered without changing the state, all pairs have to be there and equal. -/
theorem run_all_pure {σ : Type} (equal : Ref → Ref → Bool) (pairs : List (Option (Ref × Ref))) (s : σ) :
    (all pairs).run (fun x y => (pure (equal x y) : StateT σ (Except Fault) Bool)) s =
      .ok (pairs.all fun p => p.any fun q => equal q.1 q.2, s) := by
  induction pairs with
  | nil => rfl
  | cons p rest ih =>
      cases p with
      | none => rfl
      | some q =>
          rw [run_all_cons, List.all_cons, Option.any_some, pure_bind]
          cases equal q.1 q.2 with
          | false => rfl
          | true => exact ih

theorem follows_run {b : World} {recur : Ref → Ref → Visit Bool}
    {recur' : Ref → Ref → StateT Seen (Except Fault) Bool} {p : Plan}
    (h : ∀ x y, P x y → b.Follows (recur x y) (recur' x y)) (hp : p.Asks P) :
    b.Follows (p.run recur) (p.run recur') := by
  induction p with
  | done answer => exact .pure b answer
  | ask x y next ih => exact (h x y hp.1).bind fun answer => ih answer (hp.2 answer)

end Plan

/-! ## The loops over children as plans -/

section Children

variable (recur : Ref → Ref → Visit Bool)

theorem sequences_eq (xs ys : List Ref) :
    sequences recur xs ys = (Plan.all ((xs.zip ys).map some)).run recur := by
  induction xs generalizing ys with
  | nil => rfl
  | cons x xs ih =>
      cases ys with
      | nil => rfl
      | cons y ys =>
          rw [List.zip_cons_cons, List.map_cons, Plan.run_all_cons, sequences]
          simp only [ih]

theorem fieldMaps_eq (others fields : List (String × Ref)) :
    fieldMaps recur others fields =
      (Plan.all (fields.map fun e => (others.lookup e.1).map (e.2, ·))).run recur := by
  induction fields with
  | nil => rfl
  | cons e rest ih =>
      obtain ⟨name, v⟩ := e
      rw [fieldMaps, List.map_cons]
      cases others.lookup name with
      | none => rfl
      | some v' => rw [Option.map_some, Plan.run_all_cons]; simp only [ih]

theorem run_without (x : Ref) (ys : List Ref) (next : Option (List Ref) → Plan) :
    (Plan.without x ys next).run recur = (without? recur x ys >>= fun found => (next found).run recur) := by
  induction ys generalizing next with
  | nil => simp only [Plan.without, without?, pure_bind]
  | cons y rest ih =>
      simp only [Plan.without, Plan.run, without?, bind_assoc]
      congr 1
      funext equal
      cases equal
      · simp only [Bool.false_eq_true, ↓reduceIte, ih, bind_assoc, pure_bind]
      · simp only [↓reduceIte, pure_bind]

theorem sets_eq (xs ys : List Ref) : sets recur xs ys = (Plan.sets xs ys).run recur := by
  induction xs generalizing ys with
  | nil => rfl
  | cons x rest ih =>
      rw [sets, Plan.sets, run_without]
      congr 1
      funext found
      cases found with
      | none => rfl
      | some remaining => exact ih remaining

end Children

end Introspect.Equality
