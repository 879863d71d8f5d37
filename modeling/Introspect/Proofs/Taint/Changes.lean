import Introspect.Proofs.Log.Writing
import Introspect.Proofs.Session.Reachable
/-!
Changes of the flag of a box. The flag is set before the log is told, and nothing takes it back: a change is all or
nothing only where the record of it can be written.
-/
namespace Introspect

namespace World

variable {w : World} {r q c value : Ref} {before tainted : Bool}

/-- The world with another flag on a box. -/
def flagged (w : World) (r value : Ref) (tainted : Bool) : World :=
  match r with
  | .cell address => { w with cells := w.cells.modify address ({ · with body := .box value tainted }) }
  | _ => w

theorem evolves_flagged (hb : w.body r = .box value before) : w.Evolves (w.flagged r value tainted) := by
  cases r with
  | cell address =>
      refine .single (.edit w address _ fun x hx => ⟨rfl, .inr ⟨?_, rfl⟩⟩)
      rw [body, hx] at hb
      change x.body = _ at hb
      rw [hb]
      rfl
  | _ => exact .refl

theorem body_flagged (hb : w.body r = .box c before) : (w.flagged r value tainted).body r = .box value tainted := by
  obtain ⟨i, rfl, hi⟩ := exists_cell (flag?_box hb)
  simp only [flagged, body, Array.getElem?_modify, if_true, Array.getElem?_eq_getElem hi, Option.map_some,
    Option.elim_some]

theorem flag?_flagged (hb : w.body r = .box value before) : (w.flagged r value tainted).flag? r = some tainted :=
  flag?_box (body_flagged hb)

theorem flag?_flagged_of_ne (h : q ≠ r) : (w.flagged r value tainted).flag? q = w.flag? q := by
  cases r with
  | cell address =>
      cases q with
      | cell i =>
          have hne : address ≠ i := fun heq => h (heq ▸ rfl)
          simp only [flagged, flag?, body, Array.getElem?_modify, if_neg hne]
      | _ => rfl
  | _ => rfl

theorem isInstance_flagged (q : Ref) (n : Native) : (w.flagged r value tainted).isInstance q n = w.isInstance q n := by
  have hclass : (w.flagged r value tainted).classOf q = w.classOf q := by
    cases r with
    | cell address =>
        cases q with
        | cell i =>
            simp only [flagged, classOf, Array.getElem?_modify]
            split
            · cases w.cells[i]? <;> rfl
            · rfl
        | _ => rfl
    | _ => rfl
  have hclasses : (w.flagged r value tainted).classes = w.classes := by cases r <;> rfl
  rw [isInstance, hclass, isSubclass_congr hclasses, isInstance]

end World

namespace Taint

open World

variable {w : World} {r value : Ref} {before : Bool} {P : Handler → Prop}

/-- Makes a value tainted, or not. -/
def make : Bool → Ref → Act Unit
  | true => taint
  | false => untaint

/-- What the log is told of a change. -/
def notice : Bool → String
  | true => "Tainted scalar " ++ Dispatch.identity
  | false => "Untainted scalar " ++ Dispatch.identity

/-- A computation that fails leaves an object with the flag that it had. -/
def Atomic (w : World) (r : Ref) (m : Act Unit) : Prop := ∀ fault u, m w = .error fault u → u.flag? r = w.flag? r

theorem make_same (hb : w.body r = .box value before) : make before r w = .ok () w := by
  cases before with
  | true =>
      change taint r w = _
      rw [taint, run_get, hb]
      rfl
  | false =>
      change untaint r w = _
      rw [untaint, run_get, hb]
      rfl

/-- A flag that changes is set first; then the log is told. -/
theorem make_other (hb : w.body r = .box value before) {after : Bool} (hne : before ≠ after) :
    make after r w = Log.debug Dispatch.ask (return notice after) (w.flagged r value after) := by
  obtain ⟨i, rfl, -⟩ := exists_cell (flag?_box hb)
  cases after with
  | true =>
      obtain rfl := Bool.eq_false_of_not_eq_true hne
      change taint (.cell i) w = _
      rw [taint, run_get, hb]
      rfl
  | false =>
      obtain rfl := Bool.eq_true_of_not_eq_false hne
      change untaint (.cell i) w = _
      rw [untaint, run_get, hb]
      rfl

theorem configured_flagged {tainted : Bool} : Log.Configured (w.flagged r value tainted) ↔ Log.Configured w := by
  cases r <;> exact Iff.rfl

theorem evolves_make (hb : w.body r = .box value before) (tainted : Bool) : w.Evolves (after (make tainted r) w) := by
  by_cases heq : before = tainted
  · subst heq
    rw [after_of_ok (make_same hb)]
  · rw [after, make_other hb heq]
    exact (evolves_flagged hb).trans
      ((inferInstance : Keeping (Log.debug Dispatch.ask (return notice tainted))).evolves _)

theorem spares_flagged (hb : w.body r = .box value before) (tainted : Bool) (hs : Log.Spares w P) :
    Log.Spares (w.flagged r value tainted) P :=
  hs.mono (evolves_flagged hb) (by cases r <;> exact hs.held)

/-- Where handlers leave flags alone, a box has the flag that was asked for afterwards, whatever became of the record,
and all others have theirs. -/
theorem flag?_after_make (hb : w.body r = .box value before) (hs : Log.Spares w P) (tainted : Bool) :
    (after (make tainted r) w).flag? r = some tainted ∧
      ∀ q ≠ r, ∀ flag, w.flag? q = some flag → (after (make tainted r) w).flag? q = some flag := by
  by_cases heq : before = tainted
  · subst heq
    rw [after_of_ok (make_same hb)]
    exact ⟨flag?_box hb, fun _ _ _ => id⟩
  · rw [after, make_other hb heq]
    have hkept := ((spares_flagged hb tainted hs).debug (notice tainted)).flags
    refine ⟨hkept r tainted (flag?_flagged hb), fun q hq flag hflag => hkept q flag ?_⟩
    rw [flag?_flagged_of_ne hq, hflag]

/-- A change leaves nothing half done if there is nothing to change, or if the record of it can be written. These are
all cases, as long as handlers leave flags alone. -/
theorem atomic_make (hb : w.body r = .box value before) (tainted : Bool) :
    (before = tainted ∨ Log.Configured w ∧ Log.Delivers (w.flagged r value tainted) (notice tainted) →
      Atomic w r (make tainted r)) ∧
    (Log.Spares w P → Atomic w r (make tainted r) →
      before = tainted ∨ Log.Configured w ∧ Log.Delivers (w.flagged r value tainted) (notice tainted)) := by
  by_cases heq : before = tainted
  · subst heq
    refine ⟨fun _ fault u hrun => ?_, fun _ _ => .inl rfl⟩
    rw [make_same hb] at hrun
    cases hrun
  · have hwritten : (∃ u, Log.debug Dispatch.ask (return notice tainted) (w.flagged r value tainted) = .ok () u) ↔ _ :=
      Log.debug_ok_iff
    rw [configured_flagged, ← make_other hb heq] at hwritten
    constructor
    · rintro (hsame | hlog) fault u hrun
      · exact absurd hsame heq
      · obtain ⟨v, hok⟩ := hwritten.mpr hlog
        rw [hrun] at hok
        cases hok
    · intro hs hatomic
      refine .inr (hwritten.mp ?_)
      cases hrun : make tainted r w with
      | ok a u => exact ⟨u, rfl⟩
      | error fault u =>
          have hflag := (flag?_after_make hb hs tainted).1
          rw [after_of_error hrun, hatomic fault u hrun, flag?_box hb] at hflag
          exact absurd (Option.some.inj hflag) heq

end Taint

namespace Session

open Taint World

/-- A box, and a log that takes everything to a handler that fails. -/
def recording : Session :=
  following
    [.value (.assign "s" (.box (.text "x") false)),
     .config (.setVariable "OBJMETA_LOG_LEVEL" "debug"),
     .log (.addRecorder "h" true)]
    initial

theorem atomic_make_recording : recording.Reachable ∧ recording.values = [("s", .cell 0)] ∧
    recording.world.log.handlers = [.recorder "h"] ∧ recording.world.log.registered = [] ∧
    Atomic recording.world (.cell 0) (make true (.cell 0)) := by
  have hb : recording.world.body (.cell 0) = .box (.atom (.text "x")) false := by decide +kernel
  have hwritten : answered (Log.debug Dispatch.ask (return notice true))
      (recording.world.flagged (.cell 0) (.atom (.text "x")) true) = some () := by decide +kernel
  have hlog := Log.debug_ok_iff.mp (answered_iff.mp hwritten)
  exact ⟨.following .refl _, by decide +kernel, by decide +kernel, by decide +kernel,
    (atomic_make (P := Log.IsRecorder) hb true).1 (.inr ⟨configured_flagged.mp hlog.1, hlog.2⟩)⟩

/-- A box, and an unknown level for logs. -/
def misconfigured : Session :=
  following
    [.value (.assign "s" (.box (.text "x") false)),
     .config (.setVariable "OBJMETA_LOG_LEVEL" "loud")]
    initial

theorem not_atomic_misconfigured : misconfigured.Reachable ∧ misconfigured.values = [("s", .cell 0)] ∧
    misconfigured.world.flag? (.cell 0) = some false ∧
    failed (taint (.cell 0)) misconfigured.world = some (.badLevel "loud") ∧
    (World.after (taint (.cell 0)) misconfigured.world).flag? (.cell 0) = some true ∧
    ¬ Atomic misconfigured.world (.cell 0) (taint (.cell 0)) := by
  have hbefore : misconfigured.world.flag? (.cell 0) = some false := by decide +kernel
  have hafter : (World.after (taint (.cell 0)) misconfigured.world).flag? (.cell 0) = some true := by decide +kernel
  have hfails : failed (taint (.cell 0)) misconfigured.world = some (.badLevel "loud") := by decide +kernel
  refine ⟨.following .refl _, by decide +kernel, hbefore, hfails, hafter, fun hatomic => ?_⟩
  cases hrun : taint (.cell 0) misconfigured.world with
  | ok a u =>
      rw [failed, hrun] at hfails
      cases hfails
  | error fault u =>
      rw [after_of_error hrun, hatomic fault u hrun, hbefore] at hafter
      cases hafter

end Session

end Introspect
