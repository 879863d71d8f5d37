import Introspect.Proofs.Taint.Conversions
/-!
The flag of a box that is given a value. It tells whether the value is a tainted text, which is less than what a value
tells of itself: the flag of a box, and what an object converts to, are not looked at.
-/
namespace Introspect

namespace Taint

open World Conversion

/-- After so many conversions a value has become another one, in the world that the conversions led to. -/
inductive Becomes : World → Ref → Nat → World → Ref → Prop where
  | refl (w : World) (r : Ref) : Becomes w r 0 w r
  | step {w u v v' : World} {r q r' : Ref} {n : Nat} (hflag : w.flag? r = none)
      (htext : w.isInstance r .taintedStr = false) (hover : isOverloaded r w = .ok true u)
      (hvalue : Conversion.value r u = .ok q v) (hrest : Becomes v q n v' r') : Becomes w r (n + 1) v' r'

/-- A marked box, or a tainted text that is no box. -/
def Marked (w : World) (r : Ref) : Prop :=
  w.flag? r = some true ∨ w.flag? r = none ∧ w.isInstance r .taintedStr = true

/-- The value is a box whose flag is another one than its class tells, or it converts to something that is marked. -/
def Disguises (w : World) (r : Ref) : Prop :=
  (∃ tainted, w.flag? r = some tainted ∧ tainted ≠ w.isInstance r .taintedStr) ∨
    ∃ n v q, Becomes w r (n + 1) v q ∧ Marked v q

variable {w u v : World} {r s q value c : Ref} {n d : Nat} {before tainted b : Bool}

/-! ## Conversions -/

theorem isTaintedWithin_of_marked (h : Marked w r) (d : Nat) : isTaintedWithin (d + 1) r w = .ok true w := by
  rcases h with hflag | ⟨hflag, htext⟩
  · obtain ⟨value, hb⟩ := exists_box hflag
    exact isTaintedWithin_box hb d
  · rw [isTaintedWithin_other hflag, htext]
    rfl

/-- What is found out about a value with neither flag nor mark is found out about what it converts to. -/
theorem isTaintedWithin_cases (hflag : w.flag? r = none) (htext : w.isInstance r .taintedStr = false)
    (h : isTaintedWithin (d + 1) r w = .ok b v) : (b = false ∧ isOverloaded r w = .ok false v) ∨
      ∃ u q u', isOverloaded r w = .ok true u ∧ Conversion.value r u = .ok q u' ∧ isTaintedWithin d q u' = .ok b v := by
  rw [isTaintedWithin_other hflag, htext] at h
  obtain ⟨converts, u, hover, h⟩ := run_bind h
  cases converts with
  | false => cases h; exact .inl ⟨rfl, hover⟩
  | true =>
      obtain ⟨q, u', hvalue, h⟩ := run_bind h
      exact .inr ⟨u, q, u', hover, hvalue, h⟩

/-- What is found tainted has become something marked. -/
theorem exists_becomes (h : isTaintedWithin d r w = .ok true v) : ∃ n u q, Becomes w r n u q ∧ Marked u q := by
  induction d generalizing w r with
  | zero => cases h
  | succ d ih =>
      cases hflag : w.flag? r with
      | some tainted =>
          obtain ⟨value, hb⟩ := exists_box hflag
          rw [isTaintedWithin_box hb] at h
          cases h
          exact ⟨0, _, r, .refl _ r, .inl hflag⟩
      | none =>
          cases htext : w.isInstance r .taintedStr with
          | true => exact ⟨0, w, r, .refl w r, .inr ⟨hflag, htext⟩⟩
          | false =>
              rcases isTaintedWithin_cases hflag htext h with ⟨hfalse, -⟩ | ⟨u, q, u', hover, hvalue, hrest⟩
              · cases hfalse
              · obtain ⟨n, v', q', hbecomes, hmarked⟩ := ih hrest
                exact ⟨n + 1, v', q', .step hflag htext hover hvalue hbecomes, hmarked⟩

/-- What becomes something marked is not found untainted. -/
theorem Becomes.eq_true (h : Becomes w r n u q) (hmarked : Marked u q) (hrun : isTaintedWithin d r w = .ok b v) :
    b = true := by
  induction h generalizing d with
  | refl w r =>
      cases d with
      | zero => cases hrun
      | succ d =>
          rw [isTaintedWithin_of_marked hmarked] at hrun
          cases hrun
          rfl
  | step hflag htext hover hvalue hrest ih =>
      cases d with
      | zero => cases hrun
      | succ d =>
          rcases isTaintedWithin_cases hflag htext hrun with ⟨-, hover'⟩ | ⟨u, q, u', hover', hvalue', hrun'⟩
          · cases hover.symm.trans hover'
          · cases hover.symm.trans hover'
            cases hvalue.symm.trans hvalue'
            exact ih hmarked hrun'

theorem isTaintedWithin_iff (h : isTaintedWithin d r w = .ok b v) :
    b = true ↔ ∃ n u q, Becomes w r n u q ∧ Marked u q := by
  constructor
  · rintro rfl
    exact exists_becomes h
  · rintro ⟨n, u, q, hbecomes, hmarked⟩
    exact hbecomes.eq_true hmarked h

theorem disguises_of_box (hflag : w.flag? r = some tainted) :
    Disguises w r ↔ tainted ≠ w.isInstance r .taintedStr := by
  constructor
  · rintro (⟨before, hbefore, hne⟩ | ⟨n, u, q, hbecomes, -⟩)
    · cases hflag.symm.trans hbefore
      exact hne
    · cases hbecomes with
      | step hnone => cases hflag.symm.trans hnone
  · exact fun hne => .inl ⟨tainted, hflag, hne⟩

theorem not_disguises_of_text (hflag : w.flag? r = none) (htext : w.isInstance r .taintedStr = true) :
    ¬ Disguises w r := by
  rintro (⟨before, hbefore, -⟩ | ⟨n, u, q, hbecomes, -⟩)
  · cases hflag.symm.trans hbefore
  · cases hbecomes with
    | step _ hother => cases htext.symm.trans hother

/-- A value with neither flag nor mark is disguised if it is tainted at all. -/
theorem disguises_of_other (hflag : w.flag? r = none) (htext : w.isInstance r .taintedStr = false) :
    Disguises w r ↔ ∃ n u q, Becomes w r n u q ∧ Marked u q := by
  constructor
  · rintro (⟨before, hbefore, -⟩ | ⟨n, u, q, h⟩)
    · cases hflag.symm.trans hbefore
    · exact ⟨n + 1, u, q, h⟩
  · rintro ⟨n, u, q, hbecomes, hmarked⟩
    cases hbecomes with
    | refl =>
        rcases hmarked with hmarked | ⟨-, hmarked⟩
        · cases hflag.symm.trans hmarked
        · cases htext.symm.trans hmarked
    | step hnone hother hover hvalue hrest => exact .inr ⟨_, u, q, .step hnone hother hover hvalue hrest, hmarked⟩

/-! ## Assignment -/

/-- What puts a value into a box, and the box: assignment, and making a new one. -/
inductive Assigns (w : World) (value : Ref) : Act Ref → Ref → Prop where
  | set {s c : Ref} {before : Bool} (hb : w.body s = .box c before) : Assigns w value (Dispatch.setBox s value) s
  | make (hv : w.Has value) : Assigns w value (Dispatch.newBox value) (.cell w.cells.size)

/-- The box holds the value with the flag that its class tells, and nothing else has changed its flag or its class. -/
structure Assigned (w u : World) (s value : Ref) : Prop where
  body : u.body s = .box value (w.isInstance value .taintedStr)
  others : ∀ q ≠ s, u.flag? q = w.flag? q
  text : u.isInstance value .taintedStr = w.isInstance value .taintedStr
  nesting : u.nesting = w.nesting

theorem setBox_ok (hb : w.body s = .box c before) :
    Dispatch.setBox s value w = .ok s (w.flagged s value (w.isInstance value .taintedStr)) := by
  obtain ⟨i, rfl, -⟩ := exists_cell (flag?_box hb)
  rw [Dispatch.setBox, run_get, hb]
  rfl

theorem Assigns.run {m : Act Ref} (h : Assigns w value m s) : ∃ u, m w = .ok s u ∧ Assigned w u s value := by
  cases h with
  | set hb =>
      refine ⟨_, setBox_ok hb, body_flagged hb, fun q hq => flag?_flagged_of_ne hq, isInstance_flagged _ _, ?_⟩
      cases s <;> rfl
  | make hv =>
      have hleads := Leads.alloc w ⟨.native .scalar, .box value (w.isInstance value .taintedStr), [], some []⟩
      refine ⟨_, rfl, ?_, fun q hq => ?_, hleads.grows.isInstance hv _, rfl⟩
      · simp [World.body]
      · cases q with
        | cell i =>
            have hi : i ≠ w.cells.size := fun heq => hq (congrArg Ref.cell heq)
            simp only [flag?, World.body, Array.getElem?_push, if_neg hi]
        | _ => rfl

/-- Each answers for itself, and the flag of the box is what the class of the value tells. -/
theorem Assigned.isTainted_iff (h : Assigned w u s value) (hn : 0 < w.nesting) (hrun : isTainted value u = .ok b v) :
    isTainted s u = .ok b u ↔ value = s ∨ ¬ Disguises u value := by
  obtain ⟨d, hd⟩ : ∃ d, u.nesting = d + 1 := by
    rw [h.nesting]
    exact Nat.exists_eq_succ_of_ne_zero (Nat.ne_of_gt hn)
  have hflag := flag?_box h.body
  have hbox : isTainted s u = .ok b u ↔ w.isInstance value .taintedStr = b := by
    rw [isTainted_box h.body hd]
    simp
  rw [isTainted, run_get, hd] at hrun
  rw [hbox, ← h.text]
  cases hvalue : u.flag? value with
  | some tainted =>
      obtain ⟨c, hc⟩ := exists_box hvalue
      rw [isTaintedWithin_box hc] at hrun
      cases hrun
      by_cases hs : value = s
      · subst hs
        rw [hvalue, ← h.text, Option.some.injEq] at hflag
        exact iff_of_true hflag.symm (.inl rfl)
      · rw [or_iff_right hs, disguises_of_box hvalue, not_not, eq_comm]
  | none =>
      have hs : value ≠ s := by
        rintro rfl
        cases hvalue.symm.trans hflag
      rw [or_iff_right hs]
      cases htext : u.isInstance value .taintedStr with
      | true =>
          rw [isTaintedWithin_of_marked (.inr ⟨hvalue, htext⟩)] at hrun
          cases hrun
          exact iff_of_true rfl (not_disguises_of_text hvalue htext)
      | false =>
          rw [disguises_of_other hvalue htext, ← isTaintedWithin_iff hrun, Bool.not_eq_true, eq_comm]

/-- A box that is given a value has the flag that the class of the value tells, and all other boxes keep theirs. Where
it is known whether the value is tainted, the box is so in the same way exactly if the value is the box itself, or is
not disguised: it is no box with another flag, and does not convert to anything that is marked. -/
theorem isTainted_assigned_iff {m : Act Ref} (h : Assigns w value m s) (hn : 0 < w.nesting) :
    ∃ u, m w = .ok s u ∧ Assigned w u s value ∧ isTainted s u = .ok (w.isInstance value .taintedStr) u ∧
      ∀ b v, isTainted value u = .ok b v → (isTainted s u = .ok b u ↔ value = s ∨ ¬ Disguises u value) := by
  obtain ⟨u, hrun, hassigned⟩ := h.run
  obtain ⟨d, hd⟩ := Nat.exists_eq_add_of_lt hn
  refine ⟨u, hrun, hassigned, isTainted_box hassigned.body (d := d) ?_, fun b v => hassigned.isTainted_iff hn⟩
  rw [hassigned.nesting, hd, Nat.zero_add]

end Taint

namespace Session

open Taint World

/-- A box is tainted after a tainted text is put into it. -/
theorem isTainted_assigned_text : ∃ u, Dispatch.setBox (.cell 2) (.cell 0) wrapped.world = .ok (.cell 2) u ∧
    isTainted (.cell 2) u = .ok true u := by
  have ht : wrapped.world.body (.cell 2) = .box (.cell 1) false := by decide +kernel
  have hflag : wrapped.world.flag? (.cell 0) = none := by decide +kernel
  have htext : wrapped.world.isInstance (.cell 0) .taintedStr = true := by decide +kernel
  have hassigns : Assigns wrapped.world (.cell 0) (Dispatch.setBox (.cell 2) (.cell 0)) (.cell 2) := .set ht
  obtain ⟨u, hrun, hassigned, -, hiff⟩ := isTainted_assigned_iff hassigns (by decide +kernel)
  have hflag' : u.flag? (.cell 0) = none := (hassigned.others (.cell 0) (by decide)).trans hflag
  have htext' : u.isInstance (.cell 0) .taintedStr = true := hassigned.text.trans htext
  have hnesting : u.nesting = 999 + 1 := hassigned.nesting.trans (by decide +kernel)
  have hvalue : isTainted (.cell 0) u = .ok true u := by
    rw [isTainted, run_get, hnesting, isTaintedWithin_of_marked (.inr ⟨hflag', htext'⟩)]
  exact ⟨u, hrun, (hiff true u hvalue).mpr (.inr (not_disguises_of_text hflag' htext'))⟩

/-- A box around a tainted one is untainted, when it is made and when the tainted one is put into it again. -/
theorem not_isTainted_assigned_box : wrapped.Reachable ∧ wrapped.values = [("s", .cell 1), ("t", .cell 2)] ∧
    wrapped.world.body (.cell 2) = .box (.cell 1) false ∧
    answered (isTainted (.cell 1)) wrapped.world = some true ∧
    answered (isTainted (.cell 2)) wrapped.world = some false ∧
    answered (do
      let s ← Dispatch.setBox (.cell 2) (.cell 1)
      return (← isTainted (.cell 1), ← isTainted s)) wrapped.world = some (true, false) :=
  ⟨.following .refl _, by decide +kernel, by decide +kernel, by decide +kernel, by decide +kernel, by decide +kernel⟩

end Session

end Introspect
