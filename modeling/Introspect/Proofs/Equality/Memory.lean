import Introspect.Proofs.Equality.Data
import Introspect.Proofs.Equality.Simulation
/-!
What memory does to comparisons of acyclic references. A comparison answers like the recursion without
memory as long as it never meets a pair again that it has found unequal; sets go on after such a pair,
and a later member may meet it.
-/
namespace Introspect.Equality

open World

/-- The comparison that forgets what it has seen. -/
def forgetful : Nat → Ref → Ref → Visit Bool
  | 0, _, _ => fun _ => throw .nesting
  | depth + 1, a, b => fun seen =>
    (fun r : Bool × Seen => (r.1, seen)) <$> (compare (forgetful depth) a b).run []

def separately (a b : Ref) : Act Bool := fresh (forgetful · a b)

/-- The comparison that stops where it meets a pair again that is not equal in truth. -/
def watched (truth : Ref → Ref → Except Fault Bool) (stop : Fault) : Nat → Ref → Ref → Visit Bool
  | 0, _, _ => fun _ => throw .nesting
  | depth + 1, a, b => do
    if (← get).contains (a, b) && truth a b ≠ .ok true then throw stop
    compare (watched truth stop depth) a b

/-- The comparison that stops where a pair is answered differently than in truth. -/
def checked (truth : Ref → Ref → Except Fault Bool) (stop : Fault) : Nat → Ref → Ref → Visit Bool
  | 0, _, _ => fun _ => throw .nesting
  | depth + 1, a, b => do
    let equal ← compare (checked truth stop depth) a b
    if truth a b ≠ .ok equal then throw stop
    return equal

noncomputable def truth (w : World) (a b : Ref) : Except Fault Bool := w.answer (separately a b)

/-- Comparing the two never meets a pair again that the recursion without memory does not find equal:
it ends the same whatever it would stop with. -/
def MeetsOnlyEqual (w : World) (a b : Ref) : Prop :=
  ∃ x, ∀ stop, w.Settles (fresh (watched (truth w) stop · a b)) x

/-- Every comparison on the way answers as the recursion without memory does. -/
def AnswersInTruth (w : World) (a b : Ref) : Prop :=
  ∃ x, ∀ stop, w.Settles (fresh (checked (truth w) stop · a b)) x

variable {w : World} {S : List Ref} {a b : Ref} {t : World} {seen : Seen}

/-! ## The recursion without memory -/

noncomputable def naive (w : World) : Nat → Ref → Ref → Except Fault Bool
  | 0, _, _ => .error .nesting
  | depth + 1, a, b =>
    match outcome w a b with
    | .settled answer => answer
    | .visit plan => plan.run (naive w depth)

def keeping (f : Ref → Ref → Except Fault Bool) (a b : Ref) : Recall Bool := fun seen =>
  (·, seen) <$> f a b

theorem run_keeping (f : Ref → Ref → Except Fault Bool) (p : Plan) (seen : Seen) :
    p.run (keeping f) seen = (·, seen) <$> p.run f := by
  induction p with
  | done answer => rfl
  | ask x y next ih =>
      rw [Plan.run_ask]
      unfold keeping
      cases hf : f x y with
      | error fault => simp only [Plan.run, hf]; rfl
      | ok answer =>
          simp only [Plan.run, hf]
          exact ih answer

theorem step_keeping (depth : Nat) (a b : Ref) :
    Prod.fst <$> step w (keeping (naive w depth)) a b [] = naive w (depth + 1) a b := by
  unfold step
  rw [naive]
  cases outcome w a b with
  | settled answer => cases answer <;> rfl
  | visit plan =>
      change Prod.fst <$> plan.run (keeping (naive w depth)) [(a, b)] = plan.run (naive w depth)
      rw [run_keeping]
      cases plan.run (naive w depth) <;> rfl

theorem follows_forgetful (hG : Graph w S) (ht : Ready w S t) (depth : Nat) (ha : a ∈ S) (hb : b ∈ S) :
    t.Follows (forgetful depth a b) (keeping (naive w depth) a b) := by
  induction depth generalizing a b with
  | zero => exact fun _ => .throw t .nesting
  | succ depth ih =>
      intro seen
      have hstep := follows_compare hG ht ha hb fun x hx y hy => ih hx hy
      have hkeep : keeping (naive w (depth + 1)) a b seen =
          (fun r : Bool × Seen => (r.1, seen)) <$> step w (keeping (naive w depth)) a b [] := by
        change (·, seen) <$> naive w (depth + 1) a b = _
        rw [← step_keeping]
        cases step w (keeping (naive w depth)) a b [] <;> rfl
      rw [show (keeping (naive w (depth + 1)) a b).run seen = _ from hkeep]
      exact (hstep []).map

/-- The plan for a pair of the graph asks for pairs that stand lower. -/
theorem asks_lower (hG : Graph w S) (hac : w.Acyclic S) (ha : a ∈ S) (hb : b ∈ S) {plan : Plan}
    (ho : outcome w a b = .visit plan) :
    plan.Asks fun x y => (x ∈ S ∧ y ∈ S) ∧ w.height S x < w.height S a := by
  refine (asks_outcome (hG.layout a ha b hb) ho).mono fun x y h => ?_
  have hx := hG.parts a ha x h.1
  exact ⟨⟨hx, hG.parts b hb y h.2⟩, height_lt hac hx h.1⟩

theorem run_congr {P : Ref → Ref → Prop} {m : Type → Type} [Monad m] {f g : Ref → Ref → m Bool}
    (h : ∀ x y, P x y → f x y = g x y) {p : Plan} (hp : p.Asks P) : p.run f = p.run g := by
  induction p with
  | done answer => rfl
  | ask x y next ih =>
      simp only [Plan.run, h x y hp.1]
      congr 1
      funext answer
      exact ih answer (hp.2 answer)

theorem naive_eq (hG : Graph w S) (hac : w.Acyclic S) (ha : a ∈ S) (hb : b ∈ S) {n m : Nat}
    (hn : w.height S a < n) (hm : w.height S a < m) : naive w n a b = naive w m a b := by
  induction n generalizing a b m with
  | zero => exact absurd hn (Nat.not_lt_zero _)
  | succ n ih =>
      cases m with
      | zero => exact absurd hm (Nat.not_lt_zero _)
      | succ m =>
          simp only [naive]
          cases ho : outcome w a b with
          | settled answer => rfl
          | visit plan =>
              refine run_congr (fun x y h => ?_) (asks_lower hG hac ha hb ho)
              exact ih h.1.1 h.1.2 (Nat.lt_of_lt_of_le h.2 (Nat.le_of_lt_succ hn))
                (Nat.lt_of_lt_of_le h.2 (Nat.le_of_lt_succ hm))

theorem settles_separately (hG : Graph w S) (hac : w.Acyclic S) (ha : a ∈ S) (hb : b ∈ S) {n : Nat}
    (hn : w.height S a < n) : w.Settles (separately a b) (naive w n a b) := by
  refine settles_fresh (g := fun m => keeping (naive w m) a b)
    (hG.eventually_ready.mono fun m ht => follows_forgetful hG ht m ha hb) ?_
  refine Filter.eventually_atTop.mpr ⟨n, fun m hm => ?_⟩
  change Prod.fst <$> (·, []) <$> naive w m a b = _
  rw [naive_eq hG hac ha hb (Nat.lt_of_lt_of_le hn hm) hn]
  cases naive w n a b <;> rfl

theorem truth_eq (hG : Graph w S) (hac : w.Acyclic S) (ha : a ∈ S) (hb : b ∈ S) :
    truth w a b = match outcome w a b with
      | .settled answer => answer
      | .visit plan => plan.run (truth w) := by
  rw [truth, (settles_separately hG hac ha hb (Nat.lt_succ_self _)).answer_eq]
  rw [naive]
  cases ho : outcome w a b with
  | settled answer => rfl
  | visit plan =>
      refine run_congr (fun x y h => ?_) (asks_lower hG hac ha hb ho)
      rw [truth, (settles_separately hG hac h.1.1 h.1.2 h.2).answer_eq]

/-! ## Runs that may stop -/

noncomputable def watchedSteps (w : World) (stop : Fault) : Nat → Ref → Ref → Recall Bool
  | 0, _, _ => fun _ => .error .nesting
  | depth + 1, a, b => do
    if (← get).contains (a, b) && truth w a b ≠ .ok true then throw stop
    step w (watchedSteps w stop depth) a b

noncomputable def checkedSteps (w : World) (stop : Fault) : Nat → Ref → Ref → Recall Bool
  | 0, _, _ => fun _ => .error .nesting
  | depth + 1, a, b => do
    let equal ← step w (checkedSteps w stop depth) a b
    if truth w a b ≠ .ok equal then throw stop
    return equal

theorem follows_watched (hG : Graph w S) (ht : Ready w S t) (stop : Fault) (depth : Nat) (ha : a ∈ S)
    (hb : b ∈ S) : t.Follows (watched (truth w) stop depth a b) (watchedSteps w stop depth a b) := by
  induction depth generalizing a b with
  | zero => exact fun _ => .throw t .nesting
  | succ depth ih =>
      refine .getState fun seen => ?_
      dsimp only
      split
      · exact fun _ => .throw t stop
      · exact follows_compare hG ht ha hb fun x hx y hy => ih hx hy

theorem follows_checked (hG : Graph w S) (ht : Ready w S t) (stop : Fault) (depth : Nat) (ha : a ∈ S)
    (hb : b ∈ S) : t.Follows (checked (truth w) stop depth a b) (checkedSteps w stop depth a b) := by
  induction depth generalizing a b with
  | zero => exact fun _ => .throw t .nesting
  | succ depth ih =>
      refine (follows_compare hG ht ha hb fun x hx y hy => ih hx hy).bind fun equal => ?_
      split
      · exact fun _ => .throw t stop
      · exact .pure t equal

def Finished (w : World) (p : Ref × Ref) : Prop :=
  (∃ plan, outcome w p.1 p.2 = .visit plan) ∧ ∃ e, truth w p.1 p.2 = .ok e

/-- Pairs that were seen are finished, or their comparison goes on further up. -/
def Known (w : World) (S : List Ref) (level : Nat) (seen : Seen) : Prop :=
  ∀ p ∈ seen, Finished w p ∨ (∃ plan, outcome w p.1 p.2 = .visit plan) ∧ level ≤ w.height S p.1

/-- The watched and the checked run both stop; or both do as the run itself, which ends in truth, and
the pairs that it has newly seen are finished. -/
def Agree (w : World) (seen : Seen) (answer : Except Fault Bool)
    (watched checked : Fault → Except Fault (Bool × Seen)) (run : Except Fault (Bool × Seen)) : Prop :=
  (∀ stop, watched stop = .error stop ∧ checked stop = .error stop) ∨
    ((∀ stop, watched stop = run ∧ checked stop = run) ∧ Prod.fst <$> run = answer ∧
      ∀ e seen', run = .ok (e, seen') → ∀ p ∈ seen', p ∈ seen ∨ Finished w p)

theorem Agree.settled (answer : Except Fault Bool) :
    Agree w seen answer (fun _ => (·, seen) <$> answer) (fun _ => (·, seen) <$> answer)
      ((·, seen) <$> answer) := by
  refine .inr ⟨fun _ => ⟨rfl, rfl⟩, by cases answer <;> rfl, fun e seen' h p hp => ?_⟩
  cases answer with
  | error fault => cases h
  | ok e => cases h; exact .inl hp

theorem agree_run {level : Nat} {P : Ref → Ref → Prop} {f g : Fault → Ref → Ref → Recall Bool}
    {r : Ref → Ref → Recall Bool}
    (h : ∀ x y, P x y → ∀ seen, Known w S level seen →
      Agree w seen (truth w x y) (f · x y seen) (g · x y seen) (r x y seen))
    {p : Plan} (hp : p.Asks P) (hseen : Known w S level seen) :
    Agree w seen (p.run (truth w)) (fun stop => p.run (f stop) seen) (fun stop => p.run (g stop) seen)
      (p.run r seen) := by
  induction p generalizing seen with
  | done answer => exact .settled (.ok answer)
  | ask x y next ih =>
      rcases h x y hp.1 seen hseen with hstop | ⟨hrun, htruth, hnew⟩
      · refine .inl fun stop => ?_
        obtain ⟨hf, hg⟩ := hstop stop
        dsimp only at hf hg ⊢
        rw [Plan.run_ask, Plan.run_ask, hf, hg]
        exact ⟨rfl, rfl⟩
      · simp only [Plan.run_ask, fun stop => (hrun stop).1, fun stop => (hrun stop).2]
        rw [Plan.run, ← htruth]
        cases hr : r x y seen with
        | error fault => exact .settled (.error fault)
        | ok e =>
            obtain ⟨e, seen'⟩ := e
            have hmem := hnew e seen' hr
            have hseen' : Known w S level seen' := fun p hp => (hmem p hp).elim (hseen p) .inl
            rcases ih e (hp.2 e) hseen' with hstop | ⟨hrun', htruth', hnew'⟩
            · exact .inl hstop
            · exact .inr ⟨hrun', htruth', fun e' seen'' h p hp =>
                (hnew' e' seen'' h p hp).elim (hmem p) .inr⟩

theorem watchedSteps_succ (stop : Fault) (depth : Nat) (a b : Ref) (seen : Seen) :
    watchedSteps w stop (depth + 1) a b seen =
      if List.contains seen (a, b) && truth w a b ≠ .ok true then .error stop
      else step w (watchedSteps w stop depth) a b seen := by
  change (if List.contains seen (a, b) && truth w a b ≠ .ok true then _ else _ : Recall Bool) seen = _
  split <;> rfl

/-- The watched run goes on as a comparison does unless it meets the pair again and the two are not equal in truth. -/
theorem watchedSteps_eq_step {stop : Fault} {depth : Nat} (h : (a, b) ∈ seen → truth w a b = .ok true) :
    watchedSteps w stop (depth + 1) a b seen = step w (watchedSteps w stop depth) a b seen := by
  rw [watchedSteps_succ]
  refine if_neg fun hstop => ?_
  rw [Bool.and_eq_true, decide_eq_true_eq] at hstop
  exact hstop.2 (h (List.contains_iff_mem.mp hstop.1))

theorem watchedSteps_of_settled {stop : Fault} {depth : Nat} {e : Bool} (ho : outcome w a b = .settled (.ok e))
    (hnew : (a, b) ∉ seen) : watchedSteps w stop (depth + 1) a b seen = .ok (e, seen) := by
  rw [watchedSteps_eq_step (absurd · hnew), step, ho]
  rfl

theorem watchedSteps_of_not_mem {stop : Fault} {depth : Nat} {plan : Plan} (ho : outcome w a b = .visit plan)
    (hnew : (a, b) ∉ seen) :
    watchedSteps w stop (depth + 1) a b seen = plan.run (watchedSteps w stop depth) ((a, b) :: seen) := by
  rw [watchedSteps_eq_step (absurd · hnew), step, ho, Outcome.run_visit_of_not_mem hnew]

theorem watchedSteps_of_mem {stop : Fault} {depth : Nat} {plan : Plan} (ho : outcome w a b = .visit plan)
    (hmem : (a, b) ∈ seen) (htrue : truth w a b = .ok true) :
    watchedSteps w stop (depth + 1) a b seen = .ok (true, seen) := by
  rw [watchedSteps_eq_step fun _ => htrue, step, ho, Outcome.run_visit_of_mem hmem]

def check (answer : Except Fault Bool) (stop : Fault) (run : Except Fault (Bool × Seen)) :
    Except Fault (Bool × Seen) := do
  let r ← run
  if answer ≠ .ok r.1 then .error stop else .ok r

theorem checkedSteps_succ (stop : Fault) (depth : Nat) (a b : Ref) (seen : Seen) :
    checkedSteps w stop (depth + 1) a b seen =
      check (truth w a b) stop (step w (checkedSteps w stop depth) a b seen) := by
  change (step w (checkedSteps w stop depth) a b seen >>= fun r =>
    (if truth w a b ≠ .ok r.1 then throw stop else pure r.1 : Recall Bool) r.2) = _
  unfold check
  congr 1
  funext r
  split <;> rfl

theorem check_of_answer {answer : Except Fault Bool} {run : Except Fault (Bool × Seen)} {stop : Fault}
    (h : Prod.fst <$> run = answer) : check answer stop run = run := by
  subst h
  cases run with
  | error fault => rfl
  | ok r => exact if_neg (not_not.mpr rfl)

/-- A pair that is compared for the first time is finished once the runs for its children agree. -/
theorem Agree.check {answer : Except Fault Bool} {watched checked : Fault → Except Fault (Bool × Seen)}
    {run : Except Fault (Bool × Seen)} (h : Agree w ((a, b) :: seen) answer watched checked run)
    (hfinished : ∀ e, answer = .ok e → Finished w (a, b)) :
    Agree w seen answer watched (fun stop => Equality.check answer stop (checked stop)) run := by
  rcases h with hstop | ⟨hrun, hanswer, hnew⟩
  · refine .inl fun stop => ⟨(hstop stop).1, ?_⟩
    dsimp only
    rw [(hstop stop).2]
    rfl
  · refine .inr ⟨fun stop => ⟨(hrun stop).1, ?_⟩, hanswer, fun e seen' he p hp => ?_⟩
    · dsimp only
      rw [(hrun stop).2, check_of_answer hanswer]
    · rcases hnew e seen' he p hp with hp | hp
      · rcases List.mem_cons.mp hp with rfl | hp
        · exact .inr (hfinished e (by rw [← hanswer, he]; rfl))
        · exact .inl hp
      · exact .inr hp

/-- At a pair of the graph the watched and the checked run both stop, or both do as the comparison. -/
theorem agree_remembering (hG : Graph w S) (hac : w.Acyclic S) (depth : Nat) (ha : a ∈ S) (hb : b ∈ S)
    (hdepth : w.height S a < depth) (hseen : Known w S (w.height S a + 1) seen) :
    Agree w seen (truth w a b) (watchedSteps w · depth a b seen) (checkedSteps w · depth a b seen)
      (remembering w depth a b seen) := by
  induction depth generalizing a b seen with
  | zero => exact absurd hdepth (Nat.not_lt_zero _)
  | succ depth ih =>
      simp only [watchedSteps_succ, checkedSteps_succ, remembering, step]
      cases ho : outcome w a b with
      | settled answer =>
          have htruth : truth w a b = answer := by rw [truth_eq hG hac ha hb, ho]
          have hnew : ¬ List.contains seen (a, b) = true := fun hc => by
            rcases hseen _ (List.contains_iff_mem.mp hc) with ⟨⟨plan, hp⟩, -⟩ | ⟨⟨plan, hp⟩, -⟩ <;>
              (rw [ho] at hp; cases hp)
          have hanswer : Prod.fst <$> ((·, seen) <$> answer) = answer := by cases answer <;> rfl
          simp only [hnew, Bool.false_and, Bool.false_eq_true, ↓reduceIte, htruth]
          change Agree w seen answer (fun _ => (·, seen) <$> answer)
            (fun stop => check answer stop ((·, seen) <$> answer)) ((·, seen) <$> answer)
          simp only [check_of_answer hanswer]
          exact .settled answer
      | visit plan =>
          have htruth : truth w a b = plan.run (truth w) := by rw [truth_eq hG hac ha hb, ho]
          by_cases hmem : (a, b) ∈ seen
          · -- The pair is not in progress: that would be further up, where references stand higher.
            obtain ⟨e, he⟩ : ∃ e, truth w a b = .ok e := by
              rcases hseen _ hmem with ⟨-, he⟩ | ⟨-, hle⟩
              · exact he
              · exact absurd hle (Nat.not_succ_le_self _)
            simp only [Outcome.run_visit_of_mem hmem, List.contains_iff_mem.mpr hmem, he]
            cases e with
            | false => exact .inl fun stop => ⟨rfl, rfl⟩
            | true => exact .settled (.ok true)
          · have hnew : ¬ List.contains seen (a, b) = true := fun hc => hmem (List.contains_iff_mem.mp hc)
            simp only [Outcome.run_visit_of_not_mem hmem, hnew, Bool.false_and, Bool.false_eq_true,
              ↓reduceIte, htruth]
            have hknown : Known w S (w.height S a) ((a, b) :: seen) := by
              intro p hp
              rcases List.mem_cons.mp hp with rfl | hp
              · exact .inr ⟨⟨plan, ho⟩, Nat.le_refl _⟩
              · exact (hseen p hp).imp_right fun h => ⟨h.1, Nat.le_of_succ_le h.2⟩
            have hrec := agree_run (f := (watchedSteps w · depth)) (g := (checkedSteps w · depth))
              (r := remembering w depth) (fun x y h seen hs => ih h.1.1 h.1.2
                (Nat.lt_of_lt_of_le h.2 (Nat.le_of_lt_succ hdepth))
                fun p hp => (hs p hp).imp_right fun hk => ⟨hk.1, Nat.le_trans h.2 hk.2⟩)
              (asks_lower hG hac ha hb ho) hknown
            exact hrec.check fun e he => ⟨⟨plan, ho⟩, e, htruth.trans he⟩

/-- With nothing seen before, the runs agree under every limit that is large enough. -/
theorem eventually_agree (hG : Graph w S) (hac : w.Acyclic S) (ha : a ∈ S) (hb : b ∈ S) :
    ∀ᶠ n in Filter.atTop, Agree w [] (truth w a b) (watchedSteps w · n a b []) (checkedSteps w · n a b [])
      (remembering w n a b []) :=
  Filter.eventually_atTop.mpr ⟨w.height S a + 1, fun n hn =>
    agree_remembering hG hac n ha hb hn fun _ hp => absurd hp List.not_mem_nil⟩

/-- Runs that settle alike, whatever they would stop with, do not stop. -/
theorem not_stopped {f : Fault → Nat → Visit Bool} {g : Fault → Nat → Recall Bool}
    {x : Except Fault Bool}
    (hf : ∀ stop, ∀ᶠ n in Filter.atTop, (w.limited n).Follows (f stop n) (g stop n))
    (hx : ∀ stop, w.Settles (fresh (f stop)) x) :
    ∀ᶠ n in Filter.atTop, ¬ ∀ stop, g stop n [] = .error stop := by
  have hends stop : ∀ᶠ n in Filter.atTop, Prod.fst <$> g stop n [] = x := by
    filter_upwards [hf stop, hx stop] with n hn hxn
    exact (steady_fresh hn).unique hxn
  filter_upwards [hends .typeError, hends .valueError] with n h₁ h₂ hstop
  rw [hstop] at h₁ h₂
  cases h₁.trans h₂.symm

theorem settles_of_not_stopped (hG : Graph w S) (hac : w.Acyclic S) (ha : a ∈ S) (hb : b ∈ S)
    (h : ∀ᶠ n in Filter.atTop, ¬ ∀ stop,
      watchedSteps w stop n a b [] = .error stop ∧ checkedSteps w stop n a b [] = .error stop) :
    (∀ stop, w.Settles (fresh (watched (truth w) stop · a b)) (truth w a b)) ∧
      (∀ stop, w.Settles (fresh (checked (truth w) stop · a b)) (truth w a b)) ∧
      w.Settles (isEqual a b) (truth w a b) := by
  have hready := hG.eventually_ready
  have hends := (h.and (eventually_agree hG hac ha hb)).mono fun n hn => hn.2.resolve_left hn.1
  refine ⟨fun stop => settles_fresh (hready.mono fun n ht => follows_watched hG ht stop n ha hb) ?_,
    fun stop => settles_fresh (hready.mono fun n ht => follows_checked hG ht stop n ha hb) ?_,
    settles_fresh (hready.mono fun n ht => follows_within hG ht n ha hb) (hends.mono fun n hn => hn.2.1)⟩
  · exact hends.mono fun n hn => (congrArg (Prod.fst <$> ·) (hn.1 stop).1).trans hn.2.1
  · exact hends.mono fun n hn => (congrArg (Prod.fst <$> ·) (hn.1 stop).2).trans hn.2.1

/-- A comparison that meets no unequal pair again does not stop when it is watched. -/
theorem MeetsOnlyEqual.settles (h : MeetsOnlyEqual w a b) (hG : Graph w S) (hac : w.Acyclic S) (ha : a ∈ S) (hb : b ∈ S) :
    (∀ stop, w.Settles (fresh (watched (truth w) stop · a b)) (truth w a b)) ∧
      (∀ stop, w.Settles (fresh (checked (truth w) stop · a b)) (truth w a b)) ∧
      w.Settles (isEqual a b) (truth w a b) := by
  obtain ⟨x, hx⟩ := h
  have hready := hG.eventually_ready
  have hgo := not_stopped (fun stop => hready.mono fun n ht => follows_watched hG ht stop n ha hb) hx
  exact settles_of_not_stopped hG hac ha hb (hgo.mono fun n hn hstop => hn fun stop => (hstop stop).1)

/-- A comparison of acyclic references that meets no unequal pair again is one whose every answer is
that of the recursion without memory, and ends as that does. -/
theorem isEqual_of_meetsOnlyEqual (hG : Graph w S) (hac : w.Acyclic S) (ha : a ∈ S) (hb : b ∈ S) :
    (MeetsOnlyEqual w a b ↔ AnswersInTruth w a b) ∧
      ∃ x, w.Settles (separately a b) x ∧ (MeetsOnlyEqual w a b → w.Settles (isEqual a b) x) := by
  have hready := hG.eventually_ready
  have hwatched (h : MeetsOnlyEqual w a b) := h.settles hG hac ha hb
  have hchecked (h : AnswersInTruth w a b) := settles_of_not_stopped hG hac ha hb <| by
    obtain ⟨x, hx⟩ := h
    have hgo := not_stopped (fun stop => hready.mono fun n ht => follows_checked hG ht stop n ha hb) hx
    exact hgo.mono fun n hn hstop => hn fun stop => (hstop stop).2
  exact ⟨⟨fun h => ⟨_, (hwatched h).2.1⟩, fun h => ⟨_, (hchecked h).1⟩⟩, truth w a b,
    settles_answer ⟨_, settles_separately hG hac ha hb (Nat.lt_succ_self _)⟩, fun h => (hwatched h).2.2⟩

/-! ## Sets that meet an unequal pair again -/

def tuple (items : List Ref) : Cell := ⟨.native .tuple, .sequence items, [], none⟩

def frozen (items : List Ref) : Cell := ⟨.native .frozenset, .members items, [], none⟩

/-- Two sets whose members share the tuple of a one, and the tuple of a two. -/
def sharing : World :=
  { Session.initialWorld with
    cells := #[tuple [intRef 1], tuple [intRef 2],
      tuple [.cell 0, intRef 1], tuple [.cell 0, textRef "1"], frozen [.cell 2, .cell 3],
      tuple [.cell 1, intRef 1], tuple [.cell 1, textRef "1"], frozen [.cell 5, .cell 6]] }

/-- The sets count as equal although the recursion without memory finds them unequal. -/
theorem isEqual_sharing :
    answered (isEqual (.cell 4) (.cell 7)) sharing = some true ∧
      answered (separately (.cell 4) (.cell 7)) sharing = some false := by
  decide

/-! ## Sets that meet an equal pair again -/

/-- As before, but the tuples that are shared are equal, and each member of one set equals one of the other. -/
def agreeing : World :=
  { Session.initialWorld with
    cells := #[tuple [intRef 1], tuple [intRef 1],
      tuple [.cell 0, intRef 1], tuple [.cell 0, intRef 2], frozen [.cell 2, .cell 3],
      tuple [.cell 1, intRef 2], tuple [.cell 1, intRef 1], frozen [.cell 5, .cell 6]] }

def agreeingRefs : List Ref := (List.range 8).map .cell ++ [intRef 1, intRef 2]

def agreeingRank : Ref → Nat
  | .cell i => [1, 1, 2, 2, 3, 2, 2, 3].getD i 0
  | _ => 0

theorem graph_agreeing : Graph agreeing agreeingRefs :=
  graph_of_isData Registry.sound_empty (by decide) (by decide) (by decide)
    (by decide)

theorem acyclic_agreeing : agreeing.Acyclic agreeingRefs := by
  refine graph_agreeing.acyclic_of_rank agreeingRank fun r hr c hc => ?_
  have hquiet : ∀ r ∈ agreeingRefs, agreeing.isObject r = true → agreeing.StoresQuietly r := by decide
  have hrank : ∀ r ∈ agreeingRefs, ∀ c ∈ agreeing.parts r, agreeingRank c < agreeingRank r := by
    decide
  exact hrank r hr c (mem_parts (hquiet r hr) hc)

theorem outcome_agreeing_numbers : outcome agreeing (intRef 1) (intRef 2) = .settled (.ok false) := by
  have hhas (i : Int) : agreeing.Has (intRef i) := trivial
  have hform (i : Int) : FormIs agreeing (intRef i) (Atom.int i) _ :=
    formIs_of_hasNativeText (hhas i) rfl (Dispatch.hasNativeText_of_isOrdinary (.atom agreeing (Atom.int i)))
  have hsettles : agreeing.Settles (compareForms (intRef 1) (intRef 2)) (.ok false) :=
    settles_compareForms (hhas 1) (hhas 2) (hform 1) (hform 2)
  change Outcome.settled (agreeing.answer (compareForms (intRef 1) (intRef 2))) = _
  rw [hsettles.answer_eq]

theorem outcome_agreeing_shared :
    outcome agreeing (.cell 0) (.cell 1) = .visit (.all [some (intRef 1, intRef 1)]) := rfl

theorem truth_agreeing_shared : truth agreeing (.cell 0) (.cell 1) = .ok true := by
  have hone : truth agreeing (intRef 1) (intRef 1) = .ok true :=
    truth_eq graph_agreeing acyclic_agreeing (by decide) (by decide)
  rw [truth_eq graph_agreeing acyclic_agreeing (by decide) (by decide), outcome_agreeing_shared]
  change (Plan.all [some (intRef 1, intRef 1)]).run (truth agreeing) = _
  rw [Plan.run_all_cons, hone]
  rfl

/-- The first attempt fails after the shared tuples were seen. The second one and the third meet them again. -/
theorem watchedSteps_agreeing (stop : Fault) (depth : Nat) :
    ∃ seen, watchedSteps agreeing stop (depth + 4) (.cell 4) (.cell 7) [] = .ok (true, seen) := by
  have hsame {depth : Nat} {i : Int} {seen : Seen} (hnew : (intRef i, intRef i) ∉ seen) :
      watchedSteps agreeing stop (depth + 1) (intRef i) (intRef i) seen = .ok (true, seen) :=
    watchedSteps_of_settled (by rw [outcome, if_pos rfl]) hnew
  have hdiffer {depth : Nat} {seen : Seen} (hnew : (intRef 1, intRef 2) ∉ seen) :
      watchedSteps agreeing stop (depth + 1) (intRef 1) (intRef 2) seen = .ok (false, seen) :=
    watchedSteps_of_settled outcome_agreeing_numbers hnew
  have hshared {depth : Nat} {seen : Seen} (hnew : (.cell 0, .cell 1) ∉ seen) (hone : (intRef 1, intRef 1) ∉ seen) :
      watchedSteps agreeing stop (depth + 2) (.cell 0) (.cell 1) seen = .ok (true, (.cell 0, .cell 1) :: seen) := by
    rw [watchedSteps_of_not_mem outcome_agreeing_shared hnew]
    exact Plan.run_ask_of_ok (hsame (List.not_mem_cons_of_ne_of_not_mem (by decide) hone))
  have hagain {depth : Nat} {seen : Seen} (hmem : (.cell 0, .cell 1) ∈ seen) :
      watchedSteps agreeing stop (depth + 1) (.cell 0) (.cell 1) seen = .ok (true, seen) :=
    watchedSteps_of_mem outcome_agreeing_shared hmem truth_agreeing_shared
  have hfirst : watchedSteps agreeing stop (depth + 3) (.cell 2) (.cell 5) [(.cell 4, .cell 7)] =
      .ok (false, [(.cell 0, .cell 1), (.cell 2, .cell 5), (.cell 4, .cell 7)]) := by
    rw [watchedSteps_of_not_mem rfl (by decide)]
    exact (Plan.run_ask_of_ok (hshared (by decide) (by decide))).trans (Plan.run_ask_of_ok (hdiffer (by decide)))
  have hmember {a b : Ref} {i : Int} {seen : Seen}
      (ho : outcome agreeing a b = .visit (.all [some (.cell 0, .cell 1), some (intRef i, intRef i)]))
      (hnew : (a, b) ∉ seen) (hmem : (.cell 0, .cell 1) ∈ seen) (hnumber : (intRef i, intRef i) ∉ (a, b) :: seen) :
      watchedSteps agreeing stop (depth + 3) a b seen = .ok (true, (a, b) :: seen) := by
    rw [watchedSteps_of_not_mem ho hnew]
    exact (Plan.run_ask_of_ok (hagain (List.mem_cons_of_mem _ hmem))).trans (Plan.run_ask_of_ok (hsame hnumber))
  rw [watchedSteps_of_not_mem rfl (by decide)]
  refine ⟨[(.cell 3, .cell 5), (.cell 2, .cell 6), (.cell 0, .cell 1), (.cell 2, .cell 5), (.cell 4, .cell 7)], ?_⟩
  refine (Plan.run_ask_of_ok hfirst).trans ?_
  refine (Plan.run_ask_of_ok (hmember rfl (by decide) (by decide) (by decide))).trans ?_
  exact Plan.run_ask_of_ok (hmember rfl (by decide) (by decide) (by decide))

/-- The tuples of a one are met again, and the answer is that of the recursion without memory. -/
theorem isEqual_agreeing : MeetsOnlyEqual agreeing (.cell 4) (.cell 7) ∧
    agreeing.Settles (separately (.cell 4) (.cell 7)) (.ok true) ∧ agreeing.Settles (isEqual (.cell 4) (.cell 7)) (.ok true) := by
  have ha : Ref.cell 4 ∈ agreeingRefs := by decide
  have hb : Ref.cell 7 ∈ agreeingRefs := by decide
  have hwatched (stop : Fault) : agreeing.Settles (fresh (watched (truth agreeing) stop · (.cell 4) (.cell 7))) (.ok true) := by
    refine settles_fresh (g := fun n => watchedSteps agreeing stop n (.cell 4) (.cell 7))
      (graph_agreeing.eventually_ready.mono fun n ht => follows_watched graph_agreeing ht stop n ha hb) ?_
    refine Filter.eventually_atTop.mpr ⟨4, fun n hn => ?_⟩
    obtain ⟨depth, rfl⟩ := Nat.exists_eq_add_of_le' hn
    obtain ⟨seen, hrun⟩ := watchedSteps_agreeing stop depth
    exact congrArg (Prod.fst <$> ·) hrun
  have hmeets : MeetsOnlyEqual agreeing (.cell 4) (.cell 7) := ⟨_, hwatched⟩
  obtain ⟨-, x, hx, hsame⟩ := isEqual_of_meetsOnlyEqual graph_agreeing acyclic_agreeing ha hb
  have htrue : truth agreeing (.cell 4) (.cell 7) = .ok true :=
    ((hmeets.settles graph_agreeing acyclic_agreeing ha hb).1 .typeError).unique (hwatched .typeError)
  obtain rfl : x = .ok true := hx.answer_eq.symm.trans htrue
  exact ⟨hmeets, hx, hsame hmeets⟩

end Introspect.Equality
