import Introspect.Proofs.Dispatch.Relay
import Introspect.Proofs.Equality.Forms
import Introspect.Proofs.Reflect.Storage
import Introspect.Proofs.Taint.Changes
import Introspect.Proofs.Taint.Text
/-!
Taint through conversions. What a box or a tainted text says of itself, an object that converts says of what it converts
to, through any number of objects that convert to each other. Where conversions are pure, taint lasts, and it decides
what can be made tainted or untainted.
-/
namespace Introspect

open World

namespace Conversion

variable {w v : World} {r : Ref}

/-- The object is there, and so is its class, which matters for all but plain values. -/
structure Lives (w : World) (r : Ref) : Prop where
  has : w.Has r
  alive : w.isPlain r = false → w.isAlive (w.classOf r) = true

theorem Lives.leads (h : Lives w r) (hv : w.Leads v) : Lives v r where
  has := hv.grows.has h.has
  alive hp := by
    rw [hv.grows.isAlive, hv.grows.classOf h.has]
    exact h.alive (by rwa [hv.grows.isPlain h.has] at hp)

/-- The class of an object converts it to a text or a number. -/
def converts (w : World) (r : Ref) : Bool :=
  !w.isPlain r && ((w.overloads (w.classOf r)).text || (w.overloads (w.classOf r)).number)

theorem converts_leads (hr : w.Has r) (hv : w.Leads v) : converts v r = converts w r := by
  simp only [converts, hv.grows.isPlain hr, hv.grows.classOf hr, hv.grows.overloads]

theorem steady_isOverloaded (hs : w.registry.Sound) (hr : Lives w r) :
    w.Steady (isOverloaded r) (.ok (converts w r)) := by
  refine .get fun v hv => ?_
  rw [hv.grows.isPlain hr.has, ← converts_leads hr.has hv]
  cases hp : w.isPlain r with
  | true =>
      have hplain : converts v r = false := by
        simp only [converts, hv.grows.isPlain hr.has, hp, Bool.not_true, Bool.false_and]
      rw [hplain]
      exact .pure v false
  | false =>
      have hobject : converts v r = ((v.overloads (v.classOf r)).text || (v.overloads (v.classOf r)).number) := by
        simp only [converts, hv.grows.isPlain hr.has, hp, Bool.not_false, Bool.true_and]
      rw [hobject]
      have hr' := hr.leads hv
      refine (steady_overloads (hv.grows.sound hs) hr'.has (hr'.alive ?_)).bind
        (g := fun o => .ok (o.text || o.number)) fun o _ => .pure v _
      rw [hv.grows.isPlain hr.has, hp]

end Conversion

namespace Taint

open Conversion

variable {w v : World} {r value : Ref} {n : Nat} {before tainted : Bool} {P : Handler → Prop}

/-- Neither a box nor a tainted text. -/
structure Unmarked (w : World) (r : Ref) : Prop where
  lives : Lives w r
  flag : w.flag? r = none
  text : w.isInstance r .taintedStr = false

theorem flag?_leads (hr : w.Has r) (hv : w.Leads v) : v.flag? r = w.flag? r := by rw [flag?, hv.grows.body hr, flag?]

theorem Unmarked.leads (h : Unmarked w r) (hv : w.Leads v) : Unmarked v r where
  lives := h.lives.leads hv
  flag := (flag?_leads h.lives.has hv).trans h.flag
  text := (hv.grows.isInstance h.lives.has _).trans h.text

/-- So many pure conversions lead from an object to a value that is tainted, or is not: however the world has grown, they
answer the same but for new objects, and only let it grow on. -/
inductive Carries : World → Ref → Nat → Bool → Prop where
  | box {w : World} {r value : Ref} {tainted : Bool} (h : w.body r = .box value tainted) : Carries w r 0 tainted
  | text {w : World} {r : Ref} (hr : w.Has r) (hb : w.flag? r = none) (h : w.isInstance r .taintedStr = true) :
      Carries w r 0 true
  | plain {w : World} {r : Ref} (hr : Unmarked w r) (h : converts w r = false) : Carries w r 0 false
  | converted {w : World} {r : Ref} {n : Nat} {tainted : Bool} (hr : Unmarked w r) (h : converts w r = true)
      (answer : ∀ v : World, w.Leads v → Ref) (next : ∀ v : World, w.Leads v → World)
      (hrun : ∀ (v : World) (hv : w.Leads v), Conversion.value r v = .ok (answer v hv) (next v hv))
      (hnext : ∀ (v : World) (hv : w.Leads v), v.Leads (next v hv))
      (hrest : ∀ (v : World) (hv : w.Leads v), Carries (next v hv) (answer v hv) n tainted) : Carries w r (n + 1) tainted

namespace Carries

theorem leads (h : Carries w r n tainted) (hv : w.Leads v) : Carries v r n tainted := by
  cases h with
  | box hb =>
      refine .box ((hv.grows.body ?_).trans hb)
      obtain ⟨i, rfl, hi⟩ := exists_cell (flag?_box hb)
      exact hi
  | text hr hb h => exact .text (hv.grows.has hr) ((flag?_leads hr hv).trans hb) ((hv.grows.isInstance hr _).trans h)
  | plain hr h => exact .plain (hr.leads hv) ((converts_leads hr.lives.has hv).trans h)
  | converted hr h answer next hrun hnext hrest =>
      exact .converted (hr.leads hv) ((converts_leads hr.lives.has hv).trans h) (fun u hu => answer u (hv.trans hu))
        (fun u hu => next u (hv.trans hu)) (fun u hu => hrun u (hv.trans hu)) (fun u hu => hnext u (hv.trans hu))
        (fun u hu => hrest u (hv.trans hu))

end Carries

theorem body_ne (h : w.flag? r = none) (value : Ref) (tainted : Bool) : w.body r ≠ .box value tainted := fun hb => by
  rw [flag?_box hb] at h
  cases h

theorem isTaintedWithin_other (h : w.flag? r = none) (d : Nat) : isTaintedWithin (d + 1) r w = (do
    if w.isInstance r .taintedStr then return true
    if !(← isOverloaded r) then return false
    isTaintedWithin d (← Conversion.value r) : Act Bool) w := by
  rw [isTaintedWithin, run_get]
  cases hb : w.body r with
  | box value tainted => exact absurd hb (body_ne h value tainted)
  | _ => rfl

/-- Whether an object that is no box and no tainted text is tainted is found out by its conversion. -/
theorem Unmarked.isTaintedWithin (h : Unmarked w r) (d : Nat) : isTaintedWithin (d + 1) r w = (do
    if !(← isOverloaded r) then return false
    Taint.isTaintedWithin d (← Conversion.value r) : Act Bool) w := by
  rw [isTaintedWithin_other h.flag, h.text]
  rfl

namespace Carries

/-- Each conversion takes one level of nesting. -/
theorem steady_isTaintedWithin (h : Carries w r n tainted) (hs : w.registry.Sound) (d : Nat) :
    w.Steady (isTaintedWithin d r) (if n < d then .ok tainted else .error .nesting) := by
  induction h generalizing d with
  | @box w r value tainted hb =>
      cases d with
      | zero => exact .throw w .nesting
      | succ d =>
          rw [if_pos (Nat.succ_pos d)]
          intro v hv
          have hlater : v.flag? r = some tainted := hv.keepsFlags r tainted (flag?_box hb)
          obtain ⟨value', hb'⟩ := exists_box hlater
          exact ⟨v, .refl v, isTaintedWithin_box hb' d⟩
  | @text w r hr hb ht =>
      cases d with
      | zero => exact .throw w .nesting
      | succ d =>
          rw [if_pos (Nat.succ_pos d)]
          intro v hv
          refine ⟨v, .refl v, ?_⟩
          rw [isTaintedWithin_other ((flag?_leads hr hv).trans hb), hv.grows.isInstance hr, ht]
          rfl
  | @plain w r hr hc =>
      cases d with
      | zero => exact .throw w .nesting
      | succ d =>
          rw [if_pos (Nat.succ_pos d)]
          refine .congr (fun v hv => (hr.leads hv).isTaintedWithin d) ?_
          refine (steady_isOverloaded hs hr.lives).bind (g := fun _ => .ok false) fun o ho => ?_
          cases ho
          rw [hc]
          exact .pure w false
  | @converted w r n tainted hr hc answer next hrun hnext hrest ih =>
      cases d with
      | zero => exact .throw w .nesting
      | succ d =>
          refine .congr (fun v hv => (hr.leads hv).isTaintedWithin d) ?_
          refine (steady_isOverloaded hs hr.lives).bind
            (g := fun _ => if n + 1 < d + 1 then .ok tainted else .error .nesting) fun o ho => ?_
          cases ho
          rw [hc]
          refine .through fun v hv => ⟨next v hv, answer v hv, hnext v hv, hrun v hv, ?_⟩
          simp only [Nat.succ_lt_succ_iff]
          exact ih v hv ((hv.trans (hnext v hv)).grows.sound hs) d

theorem steady_isTainted (h : Carries w r n tainted) (hs : w.registry.Sound) (hn : n < w.nesting) :
    w.Steady (isTainted r) (.ok tainted) := by
  refine .get fun v hv => ?_
  have hsteady := (h.leads hv).steady_isTaintedWithin (hv.grows.sound hs) v.nesting
  rw [hv.nesting, if_pos hn] at hsteady
  rw [hv.nesting]
  exact hsteady

/-- If the question is answered, it is answered as the conversions tell, and there are few enough of them. -/
theorem of_isTainted (h : Carries w r n tainted) (hs : w.registry.Sound) {answer : Bool}
    (hrun : isTainted r w = .ok answer v) : answer = tainted ∧ n < w.nesting := by
  obtain ⟨u, -, hu⟩ := h.steady_isTaintedWithin hs w.nesting w (.refl w)
  have hsame : isTainted r w = isTaintedWithin w.nesting r w := rfl
  rw [hsame, hu] at hrun
  split at hrun
  · cases hrun
    exact ⟨rfl, ‹_›⟩
  · cases hrun

end Carries

/-! ## What cannot change -/

/-- Why an object that is no box and not tainted cannot be made tainted. -/
def refusal (w : World) (r : Ref) : Fault :=
  if converts w r then .cannotTaintConverted
  else if w.isPlain r then .cannotTaintPlain (w.info (w.classOf r)).name else .cannotTaint

theorem kind?_refusal (w : World) (r : Ref) : (refusal w r).kind? = some .unsupported := by
  unfold refusal
  split
  · rfl
  · split <;> rfl

theorem taint_other (h : w.flag? r = none) : taint r w = (do
    if w.isInstance r .taintedStr then return
    if ← isOverloaded r then
      if ← isTainted r then return
      throw .cannotTaintConverted
    if w.isPlain r then throw (.cannotTaintPlain (w.info (w.classOf r)).name)
    throw .cannotTaint : Act Unit) w := by
  rw [taint, run_get]
  cases hb : w.body r with
  | box value tainted => exact absurd hb (body_ne h value tainted)
  | _ => rfl

theorem untaint_other (h : w.flag? r = none) : untaint r w = (do
    if w.isInstance r .taintedStr then throw .cannotUntaintText
    if ← isOverloaded r then
      if ← isTainted r then throw .cannotUntaintConverted : Act Unit) w := by
  rw [untaint, run_get]
  cases hb : w.body r with
  | box value tainted => exact absurd hb (body_ne h value tainted)
  | _ => rfl

namespace Carries

theorem steady_taint (h : Carries w r n tainted) (hs : w.registry.Sound) (hn : n < w.nesting) (hb : w.flag? r = none) :
    w.Steady (taint r) (if tainted then .ok () else .error (refusal w r)) := by
  have hlasts := h.steady_isTainted hs hn
  intro v hv
  cases h with
  | box hbox => exact absurd hbox (body_ne hb _ _)
  | text hr _ ht =>
      refine ⟨v, .refl v, ?_⟩
      rw [taint_other ((flag?_leads hr hv).trans hb), hv.grows.isInstance hr, ht]
      rfl
  | plain hr hc =>
      obtain ⟨u, hu, hover⟩ := steady_isOverloaded hs hr.lives v hv
      rw [hc] at hover
      refine ⟨u, hu, ?_⟩
      rw [taint_other (hr.leads hv).flag, (hr.leads hv).text]
      refine (run_bind_ok hover).trans ?_
      rw [refusal, hc, ← hv.grows.isPlain hr.lives.has, ← hv.grows.classOf hr.lives.has, ← hv.grows.info]
      cases v.isPlain r <;> rfl
  | converted hr hc =>
      obtain ⟨u, hu, hover⟩ := steady_isOverloaded hs hr.lives v hv
      obtain ⟨u', hu', htainted⟩ := hlasts u (hv.trans hu)
      rw [hc] at hover
      refine ⟨u', hu.trans hu', ?_⟩
      rw [taint_other (hr.leads hv).flag, (hr.leads hv).text]
      refine (run_bind_ok hover).trans ((run_bind_ok htainted).trans ?_)
      rw [refusal, hc]
      cases tainted <;> rfl

theorem steady_untaint (h : Carries w r n tainted) (hs : w.registry.Sound) (hn : n < w.nesting) (hb : w.flag? r = none) :
    ∃ fault, Fault.kind? fault = some .hazard ∧
      w.Steady (untaint r) (if tainted then .error fault else .ok ()) := by
  have hlasts := h.steady_isTainted hs hn
  cases h with
  | box hbox => exact absurd hbox (body_ne hb _ _)
  | text hr _ ht =>
      refine ⟨.cannotUntaintText, rfl, fun v hv => ⟨v, .refl v, ?_⟩⟩
      rw [untaint_other ((flag?_leads hr hv).trans hb), hv.grows.isInstance hr, ht]
      rfl
  | plain hr hc =>
      refine ⟨.cannotUntaintText, rfl, fun v hv => ?_⟩
      obtain ⟨u, hu, hover⟩ := steady_isOverloaded hs hr.lives v hv
      rw [hc] at hover
      refine ⟨u, hu, ?_⟩
      rw [untaint_other (hr.leads hv).flag, (hr.leads hv).text]
      exact (run_bind_ok hover).trans rfl
  | converted hr hc =>
      refine ⟨.cannotUntaintConverted, rfl, fun v hv => ?_⟩
      obtain ⟨u, hu, hover⟩ := steady_isOverloaded hs hr.lives v hv
      obtain ⟨u', hu', htainted⟩ := hlasts u (hv.trans hu)
      rw [hc] at hover
      refine ⟨u', hu.trans hu', ?_⟩
      rw [untaint_other (hr.leads hv).flag, (hr.leads hv).text]
      refine (run_bind_ok hover).trans ((run_bind_ok htainted).trans ?_)
      cases tainted <;> rfl

end Carries

/-- The kind of error for a value that cannot be made tainted, or untainted. -/
def refusalKind : Bool → ErrorKind
  | true => .unsupported
  | false => .hazard

theorem Carries.steady_make (h : Carries w r n before) (hs : w.registry.Sound) (hn : n < w.nesting)
    (hb : w.flag? r = none) (tainted : Bool) : ∃ fault, Fault.kind? fault = some (refusalKind tainted) ∧
      w.Steady (make tainted r) (if before = tainted then .ok () else .error fault) := by
  cases tainted with
  | true => exact ⟨refusal w r, kind?_refusal w r, h.steady_taint hs hn hb⟩
  | false =>
      obtain ⟨fault, hkind, hsteady⟩ := h.steady_untaint hs hn hb
      refine ⟨fault, hkind, ?_⟩
      cases before <;> exact hsteady

/-- What is asked for is refused with an error of the kind exactly where an object that is no box would have to change.
Else it is done: the object is as asked for from then on, and asking again leaves everything as it is, apart from new
objects. No flag of another box ever changes. -/
structure Obeys (w : World) (r : Ref) (request : Act Unit) (before after : Bool) (kind : ErrorKind) : Prop where
  refuses : (∃ fault u, request w = .error fault u ∧ fault.kind? = some kind) ↔ w.flag? r = none ∧ before ≠ after
  lasts : ¬ (w.flag? r = none ∧ before ≠ after) → ∃ u, request w = .ok () u ∧ ∀ v, u.Leads v →
    (∃ v', isTainted r v = .ok after v') ∧ ∃ v', request v = .ok () v' ∧ v.Leads v'
  spares : ∀ q ≠ r, ∀ flag, w.flag? q = some flag → (World.after request w).flag? q = some flag

theorem make_box_ok (hb : w.body r = .box value before)
    (hlog : Log.Configured w ∧ Log.Delivers (w.flagged r value tainted) (notice tainted)) :
    ∃ u, make tainted r w = .ok () u := by
  by_cases heq : before = tainted
  · exact ⟨w, heq ▸ make_same hb⟩
  · rw [make_other hb heq]
    exact Log.debug_ok_iff.mpr ⟨configured_flagged.mpr hlog.1, hlog.2⟩

theorem obeys_make_box (hb : w.body r = .box value before) (hn : 0 < w.nesting) (hs : Log.Spares w P)
    (hlog : Log.Configured w ∧ Log.Delivers (w.flagged r value tainted) (notice tainted)) (kind : ErrorKind) :
    Obeys w r (make tainted r) before tainted kind := by
  obtain ⟨u, hrun⟩ := make_box_ok hb hlog
  obtain ⟨hflag, hothers⟩ := flag?_after_make hb hs tainted
  have hevolves := evolves_make hb tainted
  rw [after_of_ok hrun] at hflag hevolves
  have hbox : w.flag? r ≠ none := by rw [flag?_box hb]; exact nofun
  refine ⟨iff_of_false ?_ fun h => hbox h.1, fun _ => ⟨u, hrun, fun v hv => ?_⟩, hothers⟩
  · rintro ⟨fault, u', hfails, -⟩
    rw [hrun] at hfails
    cases hfails
  · obtain ⟨value', hb'⟩ := exists_box (hv.keepsFlags r tainted hflag)
    obtain ⟨d, hd⟩ := Nat.exists_eq_add_of_lt hn
    have hnesting : v.nesting = d + 1 := by rw [hv.nesting, hevolves.nesting, hd, Nat.zero_add]
    exact ⟨⟨v, isTainted_box hb' hnesting⟩, v, make_same hb', .refl v⟩

theorem Carries.obeys_make (h : Carries w r n before) (hs : w.registry.Sound) (hn : n < w.nesting)
    (hb : w.flag? r = none) (tainted : Bool) : Obeys w r (make tainted r) before tainted (refusalKind tainted) := by
  obtain ⟨fault, hkind, hsteady⟩ := h.steady_make hs hn hb tainted
  obtain ⟨u, hu, hrun⟩ := hsteady w (.refl w)
  have hasked := h.steady_isTainted hs hn
  by_cases heq : before = tainted
  · subst heq
    rw [if_pos rfl] at hrun hsteady
    refine ⟨iff_of_false ?_ fun hne => hne.2 rfl, fun _ => ⟨u, hrun, fun v hv => ?_⟩, fun q _ flag hq => ?_⟩
    · rintro ⟨fault', u', hfails, -⟩
      rw [hrun] at hfails
      cases hfails
    · obtain ⟨v', -, hv'⟩ := hasked v (hu.trans hv)
      obtain ⟨v'', hv'', hagain⟩ := hsteady v (hu.trans hv)
      exact ⟨⟨v', hv'⟩, v'', hagain, hv''⟩
    · rw [after_of_ok hrun]
      exact hu.keepsFlags q flag hq
  · rw [if_neg heq] at hrun
    refine ⟨iff_of_true ⟨fault, u, hrun, hkind⟩ ⟨hb, heq⟩, fun hnot => absurd ⟨hb, heq⟩ hnot, fun q _ flag hq => ?_⟩
    rw [after_of_error hrun]
    exact hu.keepsFlags q flag hq

/-- Whatever an object is, as long as it is known whether it is tainted, the conversions on the way are pure, handlers
leave flags alone, and records of the change of a box can be written. -/
theorem obeys_taint_untaint (hsound : w.registry.Sound) (hpure : Carries w r n tainted)
    (hrun : isTainted r w = .ok before v) (hs : Log.Spares w P)
    (hlog : ∀ value flag after, w.body r = .box value flag →
      Log.Configured w ∧ Log.Delivers (w.flagged r value after) (notice after)) :
    Obeys w r (taint r) before true .unsupported ∧ Obeys w r (untaint r) before false .hazard := by
  obtain ⟨rfl, hn⟩ := hpure.of_isTainted hsound hrun
  cases hb : w.flag? r with
  | none => exact ⟨hpure.obeys_make hsound hn hb true, hpure.obeys_make hsound hn hb false⟩
  | some flag =>
      obtain ⟨value, hbox⟩ := exists_box hb
      have hnesting : 0 < w.nesting := Nat.zero_lt_of_lt hn
      obtain ⟨d, hd⟩ := Nat.exists_eq_add_of_lt hnesting
      rw [isTainted_box hbox (hd.trans (by rw [Nat.zero_add]))] at hrun
      cases hrun
      exact ⟨obeys_make_box hbox hnesting hs (hlog value _ true hbox) .unsupported,
        obeys_make_box hbox hnesting hs (hlog value _ false hbox) .hazard⟩

/-! ## Objects around others -/

/-- The class of an object makes its text by a method that answers an attribute as it is. -/
structure Wraps (w : World) (r inner : Ref) : Prop where
  unmarked : Unmarked w r
  isObject : w.isPlain r = false ∧ ∀ c, r ≠ .cls c
  text : (w.overloads (w.classOf r)).text = true
  hook : ∃ holder i f name, w.entryOf? (w.classOf r) "__str__" = some (holder, .value (.routine (.function i))) ∧
    w.function? i = some f ∧ f.wraps = none ∧ f.takesReceiver = true ∧ f.body = .attribute name ∧
      w.readsQuietly r name = true ∧ w.slotValue? r name = some inner

variable {inner : Ref}

theorem perform_classHook {c holder : ClassId} {f : Ref} (h : w.entryOf? c "__str__" = some (holder, .value f)) (d : Nat) :
    Dispatch.perform (d + 1) (.attribute (.cls c) "__str__") w = .ok f w := by
  change Dispatch.classAttribute (Dispatch.perform d) c "__str__" w = _
  rw [Dispatch.classAttribute, run_get]
  have hdata : Dispatch.classData? w c "__str__" = none := rfl
  rw [hdata, h]
  rfl

theorem Wraps.leads (h : Wraps w r inner) (hv : w.Leads v) : Wraps v r inner := by
  have hr := h.unmarked.lives.has
  obtain ⟨holder, i, f, name, hentry, hf, hplain, htakes, hbody, hquiet, hvalue⟩ := h.hook
  refine ⟨h.unmarked.leads hv, ⟨(hv.grows.isPlain hr).trans h.isObject.1, h.isObject.2⟩, ?_, holder, i, f, name, ?_, ?_,
    hplain, htakes, hbody, (readsQuietly_grows hr hv.grows).trans hquiet, (slotValue?_grows hr hv.grows).trans hvalue⟩
  · rw [hv.grows.classOf hr, hv.grows.overloads, h.text]
  · rw [hv.grows.classOf hr, hv.grows.entryOf?, hentry]
  · rw [hv.grows.keeps.function?, hf]

/-- The hook is taken from the class and called on the object: three levels of nesting. -/
theorem Wraps.value_run (h : Wraps w r inner) (hs : w.registry.Sound) (hn : 3 ≤ w.nesting) :
    ∃ u, w.Leads u ∧ Conversion.value r w = .ok inner u := by
  obtain ⟨u, hu, hoverloads⟩ :=
    steady_overloads hs h.unmarked.lives.has (h.unmarked.lives.alive h.isObject.1) w (.refl w)
  obtain ⟨holder, i, f, name, hentry, hf, hplain, htakes, hbody, hquiet, hvalue⟩ := (h.leads hu).hook
  obtain ⟨d, hd⟩ := Nat.exists_eq_add_of_le' (hu.nesting.symm ▸ hn)
  have hhook : Dispatch.ask (.attribute (.cls (u.classOf r)) "__str__") u = .ok (.routine (.function i)) u :=
    (ask_eq hd _).trans (perform_classHook hentry (d + 2))
  have hattribute : Dispatch.perform (d + 1) (.attribute r name) u = .ok inner u := by
    rw [attribute_of_readsQuietly d h.isObject.2 hquiet, hvalue]
    rfl
  have hcall : Dispatch.ask (.call (.routine (.function i)) [r] []) u = .ok inner u := by
    rw [ask_eq hd]
    change Dispatch.callFunction (Dispatch.perform (d + 2)) i [r] [] u = _
    rw [callFunction_plain hf hplain htakes, hbody]
    exact hattribute
  refine ⟨u, hu, (run_bind_ok hoverloads).trans ?_⟩
  rw [run_get, h.text, if_pos rfl]
  exact (run_bind_ok hhook).trans hcall

/-- However many objects are around each other, the taint of the innermost value is carried to the outermost one. -/
theorem Wraps.carries (h : Wraps w r inner) (hs : w.registry.Sound) (hn : 3 ≤ w.nesting)
    (hinner : Carries w inner n tainted) : Carries w r (n + 1) tainted := by
  have hconverts : converts w r = true := by
    rw [converts, h.isObject.1, h.text]
    rfl
  choose u hu hrun using fun v (hv : w.Leads v) =>
    (h.leads hv).value_run (hv.grows.sound hs) (hv.nesting.symm ▸ hn)
  exact .converted h.unmarked hconverts (fun _ _ => inner) u hrun hu fun v hv => hinner.leads (hv.trans (hu v hv))

/-- A marked box, an object around it, and an object around that one. The log tells all to a handler that fails. -/
def enclosing : World :=
  { Session.initialWorld with
    classes := #[programClass "Part" [.declared 0, .native .object] [("__str__", .value (.routine (.function 0)))]]
    functions := #[⟨"__str__", .attribute "part", true, none, false, false⟩]
    cells := #[⟨.native .scalar, .box (.atom (.text "x")) true, [], some []⟩,
      ⟨.declared 0, .nothing, [], some [("part", .cell 0)]⟩,
      ⟨.declared 0, .nothing, [], some [("part", .cell 1)]⟩]
    log := ((LogBook.empty.create Log.ownName .debug true).1).addRecorder ⟨"h", true, []⟩ }

theorem wraps_enclosing {i : Nat} (hi : i = 0 ∨ i = 1) : Wraps enclosing (.cell (i + 1)) (.cell i) := by
  have hfunction : enclosing.function? 0 = some ⟨"__str__", .attribute "part", true, none, false, false⟩ := rfl
  rcases hi with rfl | rfl
  · exact ⟨⟨⟨by decide, by decide⟩, by decide, by decide⟩, ⟨by decide, nofun⟩, by decide, .declared 0, 0, _, "part",
      by decide, hfunction, rfl, rfl, rfl, by decide, by decide⟩
  · exact ⟨⟨⟨by decide, by decide⟩, by decide, by decide⟩, ⟨by decide, nofun⟩, by decide, .declared 0, 0, _, "part",
      by decide, hfunction, rfl, rfl, rfl, by decide, by decide⟩

theorem obeys_enclosing :
    (Obeys enclosing (.cell 2) (taint (.cell 2)) true true .unsupported ∧
      Obeys enclosing (.cell 2) (untaint (.cell 2)) true false .hazard) ∧
    Obeys enclosing (.cell 0) (taint (.cell 0)) true true .unsupported ∧
      Obeys enclosing (.cell 0) (untaint (.cell 0)) true false .hazard := by
  have hs : enclosing.registry.Sound := Registry.sound_empty
  have hspares : Log.Spares enclosing Log.IsRecorder :=
    Log.spares_of_recorders fun _ hx => ⟨"h", List.mem_singleton.mp hx⟩
  have hn : 3 ≤ enclosing.nesting := by decide
  have hbox : enclosing.body (.cell 0) = .box (.atom (.text "x")) true := rfl
  have hinner : Carries enclosing (.cell 0) 0 true := .box hbox
  have houter : Carries enclosing (.cell 2) 2 true :=
    (wraps_enclosing (.inr rfl)).carries hs hn ((wraps_enclosing (.inl rfl)).carries hs hn hinner)
  obtain ⟨v, -, hrun⟩ := houter.steady_isTainted hs (by decide) enclosing (.refl _)
  obtain ⟨v', -, hrun'⟩ := hinner.steady_isTainted hs (by decide) enclosing (.refl _)
  refine ⟨obeys_taint_untaint hs houter hrun hspares fun value flag _ hb => ?_,
    obeys_taint_untaint hs hinner hrun' hspares fun value flag tainted hb => ?_⟩
  · cases hb
  · cases hb
    have hwritten : answered (Log.debug Dispatch.ask (return notice tainted))
        (enclosing.flagged (.cell 0) (.atom (.text "x")) tainted) = some () := by
      cases tainted <;> decide +kernel
    obtain ⟨hconfigured, hdelivers⟩ := Log.debug_ok_iff.mp (answered_iff.mp hwritten)
    exact ⟨configured_flagged.mp hconfigured, hdelivers⟩

/-- An unmarked box, and a log that tells all to an object whose call fails, and whose display calls itself until the
limit of nesting is reached. -/
def failing (fault : Fault) : World :=
  { Session.initialWorld with
    classes := #[programClass "Handler" [.declared 0, .native .object]
      [("__call__", .value (.routine (.function 0))), ("__repr__", .value (.routine (.function 1)))]]
    functions := #[⟨"__call__", .raise fault, true, none, false, false⟩,
      ⟨"__repr__", .call .self "__repr__" [], true, none, false, false⟩]
    cells := #[⟨.native .scalar, .box (.atom (.text "x")) false, [], some []⟩, ⟨.declared 0, .nothing, [], some []⟩]
    log := (LogBook.empty.create Log.ownName .debug true).1.addCallable (.cell 1)
    nesting := 50 }

/-- What ends the program is not caught, and telling the name of a handler that failed may fail in turn. The box is
marked by then. -/
theorem not_obeys_failing :
    failed (taint (.cell 0)) (failing (.host .systemExit "stop")) = some (.host .systemExit "stop") ∧
    failed (taint (.cell 0)) (failing .valueError) = some .nesting ∧
    ∀ fault ∈ [Fault.host .systemExit "stop", .valueError],
      answered (isTainted (.cell 0)) (failing fault) = some false ∧ Log.Configured (failing fault) ∧
      (World.after (taint (.cell 0)) (failing fault)).flag? (.cell 0) = some true ∧
      ¬ Obeys (failing fault) (.cell 0) (taint (.cell 0)) false true .unsupported := by
  have hruns : failed (taint (.cell 0)) (failing (.host .systemExit "stop")) = some (.host .systemExit "stop") ∧
      failed (taint (.cell 0)) (failing .valueError) = some .nesting ∧
      ∀ fault ∈ [Fault.host .systemExit "stop", .valueError],
        answered (isTainted (.cell 0)) (failing fault) = some false ∧
        (World.after (taint (.cell 0)) (failing fault)).flag? (.cell 0) = some true ∧
        (failed (taint (.cell 0)) (failing fault)).isSome = true := by decide +kernel
  obtain ⟨hexits, hnests, hall⟩ := hruns
  refine ⟨hexits, hnests, fun fault hfault => ?_⟩
  obtain ⟨hasked, hflag, hfails⟩ := hall fault hfault
  refine ⟨hasked, .inl rfl, hflag, fun hobeys => ?_⟩
  have hbox : (failing fault).flag? (.cell 0) = some false := rfl
  obtain ⟨u, hrun, -⟩ := hobeys.lasts fun h => by rw [hbox] at h; cases h.1
  rw [failed, hrun] at hfails
  cases hfails

end Taint

end Introspect
