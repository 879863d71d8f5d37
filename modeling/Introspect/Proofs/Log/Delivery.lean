import Introspect.Proofs.Log.Writing
import Introspect.Proofs.Session.Reachable
/-!
Delivery of one record to all handlers. The place in the list of handlers moves on by one with each handler, while the
list is the one that all code can change. So what a handler does to the list decides who is given the record after it.
-/
namespace Introspect

open World

namespace Log

variable {ask : Ask} {logName : String} {record : LogRecord} {h : Handler} {w u : World} {steps position : Nat}

/-! ## One handler after the other -/

/-- One handler is given the record; if it fails, the host's logging is told. -/
def hand (ask : Ask) (logName : String) (record : LogRecord) (h : Handler) : Act Unit := do
  if ← receive ask record h then
    let text ← handlerText ask h
    Act.modifyLog (·.forward ⟨logName, Level.err.weight, "Log handler failed: " ++ text, true⟩)

theorem deliver_of_none (h : w.log.handlers[position]? = none) :
    deliver ask logName record (steps + 1) position w = .ok () w := by
  rw [deliver, run_get, h]
  rfl

theorem deliver_of_some (hh : w.log.handlers[position]? = some h) :
    deliver ask logName record (steps + 1) position w =
      (hand ask logName record h >>= fun _ => deliver ask logName record steps (position + 1)) w := by
  rw [deliver, run_get, hh, hand]
  dsimp only
  rw [bind_assoc]
  refine congrFun (bind_congr fun fails => ?_) w
  cases fails with
  | false => rfl
  | true =>
      rw [if_pos rfl, if_pos rfl]
      simp only [bind_assoc]

/-- A delivery under way: who was given the record so far, one after the other, and the world as they left it. -/
structure Moment where
  given : List Handler
  world : World

namespace Moment

variable {m m' : Moment}

def start (w : World) : Moment := ⟨[], w⟩

/-- The handlers at the place that is next and behind it, as the list stands. -/
def ahead (m : Moment) : List Handler := m.world.log.handlers.drop m.given.length

theorem ahead_ne_nil_iff : m.ahead ≠ [] ↔ m.given.length < m.world.log.handlers.length := by
  rw [ne_eq, ahead, List.drop_eq_nil_iff, Nat.not_le]

theorem getElem?_of_ahead_nil (h : m.ahead = []) : m.world.log.handlers[m.given.length]? = none := by
  rw [← List.head?_drop, ← ahead, h, List.head?_nil]

theorem getElem?_of_ahead_cons {handler : Handler} {rest : List Handler} (h : m.ahead = handler :: rest) :
    m.world.log.handlers[m.given.length]? = some handler := by
  rw [← List.head?_drop, ← ahead, h, List.head?_cons]

/-- The moment after the next handler, if there is one and the call goes through. -/
def next? (ask : Ask) (logName : String) (record : LogRecord) (m : Moment) : Option Moment :=
  match m.ahead with
  | [] => none
  | h :: _ => (answered (hand ask logName record h) m.world).map fun _ =>
      ⟨m.given ++ [h], after (hand ask logName record h) m.world⟩

theorem next?_eq_some_iff : m.next? ask logName record = some m' ↔
    ∃ h rest u, m.ahead = h :: rest ∧ hand ask logName record h m.world = .ok () u ∧ m' = ⟨m.given ++ [h], u⟩ := by
  unfold next?
  cases m.ahead with
  | nil => exact iff_of_false (fun h => by cases h) fun ⟨_, _, _, h, _⟩ => by cases h
  | cons h rest =>
      dsimp only
      rw [Option.map_eq_some_iff]
      constructor
      · rintro ⟨_, hanswered, rfl⟩
        obtain ⟨u, hrun⟩ := answered_iff.mp hanswered
        exact ⟨h, rest, u, rfl, hrun, by rw [after_of_ok hrun]⟩
      · rintro ⟨h', rest', u, hahead, hrun, rfl⟩
        cases hahead
        exact ⟨(), answered_iff.mpr ⟨u, hrun⟩, by rw [after_of_ok hrun]⟩

end Moment

/-! ## Whole deliveries -/

/-- One handler is given the record after the other. -/
abbrev Runs (ask : Ask) (logName : String) (record : LogRecord) : Moment → Moment → Prop :=
  Relation.ReflTransGen fun m m' => m.next? ask logName record = some m'

variable {m m' m'' : Moment}

/-- A call that goes through takes one step of the delivery. -/
theorem deliver_next (h : m.next? ask logName record = some m') (steps : Nat) :
    deliver ask logName record (steps + 1) m.given.length m.world =
      deliver ask logName record steps m'.given.length m'.world := by
  obtain ⟨handler, rest, u, hahead, hrun, rfl⟩ := Moment.next?_eq_some_iff.mp h
  rw [deliver_of_some (Moment.getElem?_of_ahead_cons hahead), run_bind_ok hrun, List.length_append]
  rfl

theorem deliver_runs (h : Runs ask logName record m m') : ∃ count, ∀ steps,
    deliver ask logName record (steps + count) m.given.length m.world =
      deliver ask logName record steps m'.given.length m'.world := by
  induction h using Relation.ReflTransGen.head_induction_on with
  | refl => exact ⟨0, fun _ => rfl⟩
  | head hstep _ ih =>
      obtain ⟨count, hcount⟩ := ih
      exact ⟨count + 1, fun steps => (deliver_next hstep (steps + count)).trans (hcount steps)⟩

/-- A delivery that ends has given the record to all that were ahead. -/
theorem runs_of_deliver (h : deliver ask logName record steps m.given.length m.world = .ok () u) :
    ∃ m', Runs ask logName record m m' ∧ m'.ahead = [] ∧ m'.world = u := by
  induction steps generalizing m with
  | zero => cases h
  | succ steps ih =>
      cases hahead : m.ahead with
      | nil =>
          rw [deliver_of_none (Moment.getElem?_of_ahead_nil hahead)] at h
          cases h
          exact ⟨m, .refl, hahead, rfl⟩
      | cons handler rest =>
          rw [deliver_of_some (Moment.getElem?_of_ahead_cons hahead)] at h
          obtain ⟨_, v, hrun, hrest⟩ := run_bind h
          have hnext := Moment.next?_eq_some_iff.mpr ⟨handler, rest, v, hahead, hrun, rfl⟩
          obtain ⟨m', hruns, hover, hu⟩ := ih (m := ⟨m.given ++ [handler], v⟩) (by rw [List.length_append]; exact hrest)
          exact ⟨m', .head hnext hruns, hover, hu⟩

theorem deliver_ok_iff : (∃ steps, deliver ask logName record steps m.given.length m.world = .ok () u) ↔
    ∃ m', Runs ask logName record m m' ∧ m'.ahead = [] ∧ m'.world = u := by
  constructor
  · rintro ⟨steps, h⟩
    exact runs_of_deliver h
  · rintro ⟨m', hruns, hover, rfl⟩
    obtain ⟨count, hcount⟩ := deliver_runs hruns
    exact ⟨1 + count, (hcount 1).trans (deliver_of_none (Moment.getElem?_of_ahead_nil hover))⟩

theorem runs_total (h : Runs ask logName record m m') (h' : Runs ask logName record m m'') :
    Runs ask logName record m' m'' ∨ Runs ask logName record m'' m' :=
  Relation.ReflTransGen.total_of_right_unique (fun _ _ _ hb hc => Option.some.inj (hb.symm.trans hc)) h h'

theorem eq_of_runs_over (h : Runs ask logName record m m') (hover : m.ahead = []) : m' = m := by
  cases Relation.ReflTransGen.cases_head h with
  | inl heq => exact heq.symm
  | inr h =>
      obtain ⟨n, hnext, -⟩ := h
      rw [Moment.next?, hover] at hnext
      cases hnext

/-- A delivery comes to one end at most. -/
theorem over_unique (h : Runs ask logName record m m') (hover : m'.ahead = []) (h' : Runs ask logName record m m'')
    (hover' : m''.ahead = []) : m'' = m' := by
  rcases runs_total h h' with hlater | hlater
  · exact eq_of_runs_over hlater hover
  · exact (eq_of_runs_over hlater hover').symm

/-- Where all calls go through and the list stays bounded, the place reaches the end of the list. -/
theorem exists_over_of_bounded {bound : Nat}
    (hcalls : ∀ m', Runs ask logName record m m' → m'.ahead ≠ [] → ∃ m'', m'.next? ask logName record = some m'')
    (hbound : ∀ m', Runs ask logName record m m' → m'.world.log.handlers.length ≤ bound) :
    ∃ m', Runs ask logName record m m' ∧ m'.ahead = [] := by
  have hroom (room : Nat) : ∀ m', Runs ask logName record m m' → bound ≤ m'.given.length + room →
      ∃ m'', Runs ask logName record m m'' ∧ m''.ahead = [] := by
    induction room with
    | zero =>
        intro m' hruns hle
        by_contra hnone
        have hahead : m'.ahead ≠ [] := fun hover => hnone ⟨m', hruns, hover⟩
        have hlist := hbound m' hruns
        rw [Moment.ahead_ne_nil_iff] at hahead
        omega
    | succ room ih =>
        intro m' hruns hle
        by_cases hover : m'.ahead = []
        · exact ⟨m', hruns, hover⟩
        · obtain ⟨m'', hnext⟩ := hcalls m' hruns hover
          refine ih m'' (hruns.tail hnext) ?_
          obtain ⟨handler, rest, u, -, -, rfl⟩ := Moment.next?_eq_some_iff.mp hnext
          rw [List.length_append, List.length_singleton]
          omega
  exact hroom bound m .refl (Nat.le_add_left ..)

/-! ## The handlers of the beginning -/

variable {registered rest : List Handler} {next : Handler}

/-- Those of some handlers that a list holds. -/
def among (registered handlers : List Handler) : List Handler := handlers.filter (· ∈ registered)

theorem among_cons (h : next ∈ registered) (rest : List Handler) :
    among registered (next :: rest) = next :: among registered rest :=
  List.filter_cons_of_pos (decide_eq_true h)

theorem among_append (registered handlers more : List Handler) :
    among registered (handlers ++ more) = among registered handlers ++ among registered more := List.filter_append ..

/-- Those of the handlers that were given the record or are ahead, in that order. -/
def Moment.roster (registered : List Handler) (m : Moment) : List Handler := among registered (m.given ++ m.ahead)

/-- A call that leaves those of the handlers ahead that are behind the one called. -/
def LeavesAhead (registered : List Handler) (m m' : Moment) : Prop :=
  among registered m'.ahead = among registered m.ahead.tail

instance (registered : List Handler) (m m' : Moment) : Decidable (LeavesAhead registered m m') :=
  inferInstanceAs (Decidable (_ = _))

theorem roster_next_iff (h : m.next? ask logName record = some m') :
    m'.roster registered = m.roster registered ↔ LeavesAhead registered m m' := by
  obtain ⟨handler, rest, u, hahead, -, rfl⟩ := Moment.next?_eq_some_iff.mp h
  have hgiven : m.given ++ handler :: rest = m.given ++ [handler] ++ rest := List.append_cons ..
  rw [Moment.roster, Moment.roster, LeavesAhead, hahead, hgiven, List.tail_cons, among_append _ (m.given ++ [handler]),
    among_append _ (m.given ++ [handler]), List.append_right_inj]

/-- From here on all calls leave those of the handlers that are ahead. -/
def Quiet (ask : Ask) (logName : String) (record : LogRecord) (registered : List Handler) (m : Moment) : Prop :=
  ∀ m₁ m₂, Runs ask logName record m m₁ → m₁.next? ask logName record = some m₂ → LeavesAhead registered m₁ m₂

theorem roster_runs (hquiet : Quiet ask logName record registered m) (h : Runs ask logName record m m') :
    m'.roster registered = m.roster registered := by
  induction h with
  | refl => rfl
  | tail hruns hnext ih => exact ((roster_next_iff hnext).mpr (hquiet _ _ hruns hnext)).trans ih

/-- The delivery ends, and of all that were given the record the handlers registered at its beginning are these handlers,
each of them once and in the order of the list. -/
def Serves (ask : Ask) (logName : String) (record : LogRecord) (w : World) : Prop :=
  ∃ m, Runs ask logName record (.start w) m ∧ m.ahead = [] ∧ among w.log.handlers m.given = w.log.handlers

theorem quiet_of_over (hover : m.ahead = []) : Quiet ask logName record registered m := by
  intro m₁ m₂ hruns hnext
  rw [eq_of_runs_over hruns hover, Moment.next?, hover] at hnext
  cases hnext

theorem quiet_of_next (hnext : m.next? ask logName record = some m') (hleaves : LeavesAhead registered m m')
    (hquiet : Quiet ask logName record registered m') : Quiet ask logName record registered m := by
  intro m₁ m₂ hruns hnext₁
  rcases Relation.ReflTransGen.cases_head hruns with rfl | ⟨n, hn, hruns⟩
  · cases hnext.symm.trans hnext₁
    exact hleaves
  · cases hnext.symm.trans hn
    exact hquiet m₁ m₂ hruns hnext₁

theorem roster_over (hover : m.ahead = []) : m.roster registered = among registered m.given := by
  rw [Moment.roster, hover, List.append_nil]

/-- New handlers at the end of the list are ahead, but they are none of those of the beginning. -/
theorem leavesAhead_of_append {added : List Handler} (h : m.next? ask logName record = some m')
    (hlist : m'.world.log.handlers = m.world.log.handlers ++ added) (hnew : ∀ x ∈ added, x ∉ registered) :
    LeavesAhead registered m m' := by
  obtain ⟨handler, rest, u, hahead, -, rfl⟩ := Moment.next?_eq_some_iff.mp h
  have hplace : m.given.length + 1 ≤ m.world.log.handlers.length :=
    Moment.ahead_ne_nil_iff.mp (hahead ▸ List.cons_ne_nil handler rest)
  have hnone : among registered added = [] := by
    refine List.filter_eq_nil_iff.mpr fun x hx => ?_
    simpa using hnew x hx
  have hdrop : (⟨m.given ++ [handler], u⟩ : Moment).ahead = m.ahead.tail ++ added := by
    rw [Moment.ahead, hlist, List.length_append, List.length_singleton, List.drop_append_of_le_length hplace, Moment.ahead,
      List.tail_drop]
  rw [LeavesAhead, hdrop, among_append, hnone, List.append_nil]

/-- Where a handler removes itself or one before it, the one behind it moves up to the place that is done. -/
theorem ahead_of_removal {place : Nat} (h : m.next? ask logName record = some m') (hplace : place ≤ m.given.length)
    (hlist : m'.world.log.handlers = m.world.log.handlers.eraseIdx place) : m'.ahead = m.ahead.tail.tail := by
  obtain ⟨handler, rest, u, hahead, -, rfl⟩ := Moment.next?_eq_some_iff.mp h
  have hlength := Moment.ahead_ne_nil_iff.mp (hahead ▸ List.cons_ne_nil handler rest)
  have htake : (m.world.log.handlers.take place).length = place := List.length_take_of_le (by omega)
  have hnext : place + 1 + (m.given.length + 1 - place) = m.given.length + 1 + 1 := by omega
  rw [Moment.ahead, hlist, List.eraseIdx_eq_take_drop_succ, List.length_append, List.length_singleton, List.drop_append,
    List.drop_eq_nil_of_le (by omega), List.nil_append, htake, List.drop_drop, hnext, Moment.ahead, List.tail_drop,
    List.tail_drop]

/-- The one that moved up is passed over if it was registered at the beginning. -/
theorem not_leavesAhead_of_removal {place : Nat} {handler : Handler} (h : m.next? ask logName record = some m')
    (hplace : place ≤ m.given.length)
    (hlist : m'.world.log.handlers = m.world.log.handlers.eraseIdx place) (hahead : m.ahead = handler :: next :: rest)
    (hnext : next ∈ registered) : ¬ LeavesAhead registered m m' := by
  intro hleaves
  rw [LeavesAhead, ahead_of_removal h hplace hlist, hahead, List.tail_cons, List.tail_cons, among_cons hnext] at hleaves
  exact absurd (congrArg List.length hleaves) (by rw [List.length_cons]; omega)

theorem roster_start (w : World) : (Moment.start w).roster w.log.handlers = w.log.handlers :=
  List.filter_eq_self.mpr fun _ hx => decide_eq_true hx

/-- Handlers that return or fail, and that only add new handlers while the list stays bounded, are all given the record. -/
theorem serves_of_additions {bound : Nat}
    (hcalls : ∀ m, Runs ask logName record (.start w) m → m.ahead ≠ [] → ∃ m' added, m.next? ask logName record = some m' ∧
      m'.world.log.handlers = m.world.log.handlers ++ added ∧ ∀ x ∈ added, x ∉ w.log.handlers)
    (hbound : ∀ m, Runs ask logName record (.start w) m → m.world.log.handlers.length ≤ bound) :
    Serves ask logName record w := by
  have hquiet : Quiet ask logName record w.log.handlers (.start w) := by
    intro m₁ m₂ hruns hnext
    obtain ⟨handler, rest, -, hahead, -⟩ := Moment.next?_eq_some_iff.mp hnext
    obtain ⟨m', added, hnext', hlist, hnew⟩ := hcalls m₁ hruns (hahead ▸ List.cons_ne_nil handler rest)
    cases hnext'.symm.trans hnext
    exact leavesAhead_of_append hnext hlist hnew
  have hgoes : ∀ m, Runs ask logName record (.start w) m → m.ahead ≠ [] → ∃ m', m.next? ask logName record = some m' := by
    intro m hruns hahead
    obtain ⟨m', -, hnext, -⟩ := hcalls m hruns hahead
    exact ⟨m', hnext⟩
  obtain ⟨m, hruns, hover⟩ := exists_over_of_bounded hgoes hbound
  refine ⟨m, hruns, hover, ?_⟩
  rw [← roster_over hover, roster_runs hquiet hruns, roster_start]

/-- The record goes to each handler that is registered exactly if the delivery ends and, at a moment from which on no call
adds or removes one of these handlers ahead, those that were given it and those ahead are these handlers in their order. -/
theorem serves_iff (hm : Runs ask logName record (.start w) m) (hquiet : Quiet ask logName record w.log.handlers m) :
    Serves ask logName record w ↔
      (∃ steps u, deliver ask logName record steps 0 w = .ok () u) ∧ m.roster w.log.handlers = w.log.handlers := by
  constructor
  · rintro ⟨m', hruns, hover, hserved⟩
    constructor
    · obtain ⟨steps, hsteps⟩ := deliver_ok_iff.mpr ⟨m', hruns, hover, rfl⟩
      exact ⟨steps, _, hsteps⟩
    · rcases runs_total hm hruns with hlater | hearlier
      · rw [← roster_runs hquiet hlater, roster_over hover, hserved]
      · rw [eq_of_runs_over hearlier hover, roster_over hover, hserved]
  · rintro ⟨⟨steps, u, hsteps⟩, hroster⟩
    obtain ⟨m', hruns, hover, -⟩ := runs_of_deliver (m := .start w) hsteps
    refine ⟨m', hruns, hover, ?_⟩
    rcases runs_total hm hruns with hlater | hearlier
    · rw [← roster_over hover, roster_runs hquiet hlater, hroster]
    · rw [← roster_over hover, ← eq_of_runs_over hearlier hover, hroster]

end Log

namespace Session

open Log World

/-! ## Handlers with code -/

def noted : LogRecord := ⟨.info, "a", "m"⟩

/-- The moment after a call that goes through. -/
def onward (m : Moment) : Moment := (m.next? Dispatch.ask "a" noted).getD m

theorem next?_onward {m : Moment} (h : (m.next? Dispatch.ask "a" noted).isSome = true) :
    m.next? Dispatch.ask "a" noted = some (onward m) := by
  obtain ⟨m', hnext⟩ := Option.isSome_iff_exists.mp h
  rw [onward, hnext, Option.getD_some]

def theLog : Expr Literal := .call (.value (.type (.named "objmeta.Log.Log" true))) "pyClass" []

/-- A class whose instances can be called. -/
def callable (name : String) (body : Expr Literal) : Command :=
  .cls (.declare ⟨name, name, name, some "app", [], none,
    [("__call__", .function body .receiver false false false none)], false⟩)

/-- A handler that fails, one that adds a handler, and one that removes itself at the end. -/
def unruly : Session :=
  following
    [callable "F" (.raise (.host .runtimeError "boom")),
     callable "A" (.call theLog "addHandler" [.value (.routine "abs")]),
     callable "H" (.call theLog "removeHandler" [.self]),
     .value (.assign "h" (.object "H" none [])),
     .log (.new (.text "a") true "a"),
     .log (.addHandler (.object "F" none [])),
     .log (.addHandler (.object "A" none [])),
     .log (.addHandler (.known "h"))]
    initial

theorem serves_unruly : unruly.Reachable ∧ unruly.world.log.handlers.length = 3 ∧
    Quiet Dispatch.ask "a" noted unruly.world.log.handlers (.start unruly.world) ∧
    Serves Dispatch.ask "a" noted unruly.world := by
  have hreachable : unruly.Reachable := .following .refl _
  have hrun : (∀ m ∈ [.start unruly.world, onward (.start unruly.world), onward (onward (.start unruly.world))],
      (m.next? Dispatch.ask "a" noted).isSome = true ∧ LeavesAhead unruly.world.log.handlers m (onward m)) ∧
        (onward (onward (onward (.start unruly.world)))).ahead = [] ∧ unruly.world.log.handlers.length = 3 ∧
          answered (deliver Dispatch.ask "a" noted 4 0) unruly.world = some () := by decide +kernel
  simp only [List.forall_mem_cons] at hrun
  obtain ⟨⟨⟨hfirst, hleaves₁⟩, ⟨hsecond, hleaves₂⟩, ⟨hthird, hleaves₃⟩, -⟩, hover, hlength, hends⟩ := hrun
  have hquiet : Quiet Dispatch.ask "a" noted unruly.world.log.handlers (.start unruly.world) := by
    apply quiet_of_next (next?_onward hfirst) hleaves₁
    apply quiet_of_next (next?_onward hsecond) hleaves₂
    apply quiet_of_next (next?_onward hthird) hleaves₃
    exact quiet_of_over hover
  refine ⟨hreachable, hlength, hquiet, ?_⟩
  exact (serves_iff .refl hquiet).mpr ⟨⟨4, answered_iff.mp hends⟩, roster_start unruly.world⟩

/-- A handler that removes itself stands before another one. -/
def selfRemoving : Session :=
  following
    [callable "H" (.call theLog "removeHandler" [.self]),
     .value (.assign "h" (.object "H" none [])),
     .log (.new (.text "a") true "a"),
     .log (.addHandler (.known "h")),
     .log (.addRecorder "r" false)]
    initial

/-- The other one moves up to the place of the first, which is done, and never gets the record. -/
theorem not_serves_selfRemoving : selfRemoving.Reachable ∧
    selfRemoving.world.log.handlers = [.callable (.cell 0), .recorder "r"] ∧
    (World.after (deliver Dispatch.ask "a" noted 3 0) selfRemoving.world).log.received = [] ∧
    ¬ Serves Dispatch.ask "a" noted selfRemoving.world := by
  have hreachable : selfRemoving.Reachable := .following .refl _
  have hrun : selfRemoving.world.log.handlers = [.callable (.cell 0), .recorder "r"] ∧
      (World.after (deliver Dispatch.ask "a" noted 3 0) selfRemoving.world).log.received = [] ∧
      ((Moment.start selfRemoving.world).next? Dispatch.ask "a" noted).isSome = true ∧
      (onward (.start selfRemoving.world)).ahead = [] ∧
      (onward (.start selfRemoving.world)).given = [.callable (.cell 0)] := by decide +kernel
  obtain ⟨hlist, hreceived, hnext, hover, hgiven⟩ := hrun
  refine ⟨hreachable, hlist, hreceived, ?_⟩
  rintro ⟨m, hruns, hover', hserved⟩
  rw [over_unique (.single (next?_onward hnext)) hover hruns hover', hgiven, hlist] at hserved
  exact absurd hserved (by decide)

end Session

end Introspect
