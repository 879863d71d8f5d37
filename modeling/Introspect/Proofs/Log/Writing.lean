import Introspect.Proofs.Reflect.Keeping
/-!
Records of the library's own log. The log is made with the configured level when it is first asked for, so that a record
can fail to be written; and each record runs the code of all handlers, which may do to the world what programs do.
-/
namespace Introspect

namespace World

variable {α β : Type} {w v u : World} {r : Ref} {tainted : Bool} {m : Act α} {f : α → Act β} {a : α}

/-! ## Flags of boxes -/

def flag? (w : World) (r : Ref) : Option Bool :=
  match w.body r with
  | .box _ tainted => some tainted
  | _ => none

theorem flag?_box {value : Ref} (h : w.body r = .box value tainted) : w.flag? r = some tainted := by
  rw [flag?, h]

theorem exists_box (h : w.flag? r = some tainted) : ∃ value, w.body r = .box value tainted := by
  unfold flag? at h
  split at h
  · cases h
    exact ⟨_, ‹_›⟩
  · cases h

/-- Only cells hold boxes. -/
theorem exists_cell (h : w.flag? r = some tainted) : ∃ i, r = .cell i ∧ i < w.cells.size := by
  obtain ⟨value, hb⟩ := exists_box h
  cases r with
  | cell i =>
      refine ⟨i, rfl, Nat.lt_of_not_le fun hi => ?_⟩
      rw [body, Array.getElem?_eq_none hi] at hb
      cases hb
  | entry c key => rcases w.body_entry c key with h | h <;> rw [h] at hb <;> cases hb
  | _ => cases hb

/-- Boxes stay boxes, with the flags that they have. -/
def KeepsFlags (w v : World) : Prop := ∀ r tainted, w.flag? r = some tainted → v.flag? r = some tainted

theorem Leads.keepsFlags (h : w.Leads v) : w.KeepsFlags v := fun r tainted hr => by
  obtain ⟨i, rfl, hi⟩ := exists_cell hr
  have hbody : v.body (.cell i) = w.body (.cell i) := h.grows.body hi
  rw [flag?, hbody]
  exact hr

theorem Evolves.nesting (h : w.Evolves v) : v.nesting = w.nesting := by
  induction h with
  | refl => rfl
  | tail _ hstep ih => cases hstep <;> exact ih

theorem after_of_ok (h : m w = .ok a v) : after m w = v := by rw [after, h]

theorem after_of_error {fault : Fault} (h : m w = .error fault v) : after m w = v := by rw [after, h]

theorem after_bind_ok (h : m w = .ok a v) : after (m >>= f) w = after (f a) v := by rw [after, run_bind_ok h, after]

theorem after_bind_error {fault : Fault} (h : m w = .error fault v) : after (m >>= f) w = v :=
  after_of_error (run_bind_error h)

theorem after_get {f : World → Act β} : after (MonadState.get >>= f) w = after (f w) w := rfl

end World

namespace Log

open World

variable {α β : Type} {w v u : World} {P : Handler → Prop} {m : Act α} {f : α → Act β} {ask : Ask} {id : Nat} {text : String}

/-! ## The level of a log that is made -/

/-- The level of a name, if there is one. -/
def levelNamed (name : String) : Except Fault Level := (Level.ofText? name).elim (.error (.badLevel name)) .ok

/-- The level that logs are made with. -/
def configuredLevel (c : Config) : Except Fault Level :=
  match Config.value? "log.level" c with
  | .ok name _ => levelNamed (name.getD "info")
  | .error fault _ => .error fault

/-- The library's own log is there, or can be made. -/
def Configured (w : World) : Prop :=
  (w.log.registered.lookup ownName).isSome = true ∨ ∃ level, configuredLevel w.config = .ok level

theorem named_registered (h : w.log.registered.lookup ownName = some id) : named ownName w = .ok id w := by
  rw [named, run_get, h]
  rfl

theorem any_registered_eq (h : w.log.registered.lookup ownName = none) :
    (w.log.registered.any fun p => p.1 = ownName) = false := by
  rw [List.any_eq_false]
  intro p hp hname
  rw [List.lookup_eq_none_iff] at h
  have hne := h p hp
  simp_all

/-- The name is a good one, so that only the level can be missing. -/
theorem named_unregistered (h : w.log.registered.lookup ownName = none) :
    named ownName w = (Act.config (Config.value? "log.level") >>= fun name =>
      Act.liftExcept (levelNamed (name.getD "info")) >>= fun level =>
        modifyGet fun w =>
          ((w.log.create ownName level true).2, { w with log := (w.log.create ownName level true).1 })) w := by
  have hvalid : LogBook.isValidName ownName = true := by decide +kernel
  rw [named, run_get, h]
  simp only [create, hvalid, Bool.not_true, Bool.false_eq_true, if_false, Bool.true_and]
  rw [run_get, any_registered_eq h, if_neg Bool.false_ne_true]
  refine congrFun (bind_congr fun name => ?_) w
  rw [levelNamed]
  cases Level.ofText? (name.getD "info") <;> rfl

theorem named_configured {level : Level} (h : w.log.registered.lookup ownName = none)
    (hl : configuredLevel w.config = .ok level) : ∃ config, named ownName w =
      .ok (w.log.create ownName level true).2 { w with config := config, log := (w.log.create ownName level true).1 } := by
  rw [named_unregistered h]
  unfold configuredLevel at hl
  cases hv : Config.value? "log.level" w.config with
  | error fault config =>
      rw [hv] at hl
      cases hl
  | ok name config =>
      rw [hv] at hl
      have hname : Act.config (Config.value? "log.level") w = .ok name { w with config := config } := by
        rw [Act.config, hv]
      refine ⟨config, (run_bind_ok hname).trans ?_⟩
      change levelNamed (name.getD "info") = .ok level at hl
      rw [hl]
      rfl

theorem named_unconfigured {fault : Fault} (h : w.log.registered.lookup ownName = none)
    (hl : configuredLevel w.config = .error fault) :
    ∃ config, named ownName w = .error fault { w with config := config } := by
  rw [named_unregistered h]
  unfold configuredLevel at hl
  cases hv : Config.value? "log.level" w.config with
  | error fault' config =>
      rw [hv] at hl
      cases hl
      refine ⟨config, run_bind_error ?_⟩
      rw [Act.config, hv]
  | ok name config =>
      rw [hv] at hl
      have hname : Act.config (Config.value? "log.level") w = .ok name { w with config := config } := by
        rw [Act.config, hv]
      refine ⟨config, (run_bind_ok hname).trans ?_⟩
      change levelNamed (name.getD "info") = .error fault at hl
      rw [hl]
      rfl

theorem named_ok_iff : (∃ id v, named ownName w = .ok id v) ↔ Configured w := by
  cases hr : w.log.registered.lookup ownName with
  | some id => exact iff_of_true ⟨id, w, named_registered hr⟩ (.inl (by rw [hr]; rfl))
  | none =>
      cases hl : configuredLevel w.config with
      | ok level =>
          obtain ⟨config, hrun⟩ := named_configured hr hl
          exact iff_of_true ⟨_, _, hrun⟩ (.inr ⟨level, hl⟩)
      | error fault =>
          obtain ⟨config, hrun⟩ := named_unconfigured hr hl
          refine iff_of_false (fun ⟨id, v, hid⟩ => ?_) ?_
          · rw [hrun] at hid
            cases hid
          · rintro (hsome | ⟨level, hlevel⟩)
            · rw [hr] at hsome
              cases hsome
            · rw [hl] at hlevel
              cases hlevel

/-- Asking for the log reads the configuration and may add the log to the others, and that is all. -/
theorem after_named (w : World) : ∃ config book, after (named ownName) w = { w with config := config, log := book } ∧
    book.handlers = w.log.handlers := by
  cases hr : w.log.registered.lookup ownName with
  | some id => exact ⟨w.config, w.log, after_of_ok (named_registered hr), rfl⟩
  | none =>
      cases hl : configuredLevel w.config with
      | ok level =>
          obtain ⟨config, hrun⟩ := named_configured hr hl
          exact ⟨config, _, after_of_ok hrun, rfl⟩
      | error fault =>
          obtain ⟨config, hrun⟩ := named_unconfigured hr hl
          exact ⟨config, w.log, after_of_error hrun, rfl⟩

/-! ## Records that are written -/

/-- The delivery of a debug record of a log to all handlers ends. -/
def DeliveryEnds (w : World) (log : Log) (message : String) : Prop :=
  ∃ u, deliver Dispatch.ask log.name ⟨.debug, log.name, message⟩ (w.log.handlers.length + w.nesting + 1) 0 w = .ok () u

/-- If the own log takes debug records, the delivery of this one ends. -/
def Delivers (w : World) (message : String) : Prop :=
  ∀ id v log, named ownName w = .ok id v → v.log.logs[id]? = some log → LogBook.isEnabled log .debug = true →
    DeliveryEnds v log message

theorem write_ok_iff {message : String} : (∃ u, write Dispatch.ask id .debug message false w = .ok () u) ↔
    ∀ log, w.log.logs[id]? = some log → LogBook.isEnabled log .debug = true → DeliveryEnds w log message := by
  rw [write, run_get]
  cases hl : w.log.logs[id]? with
  | none => exact iff_of_true ⟨w, rfl⟩ fun log hlog => by cases hlog
  | some log =>
      dsimp only
      cases he : LogBook.isEnabled log .debug with
      | false =>
          refine iff_of_true ⟨w, rfl⟩ fun log' hlog hon => ?_
          cases hlog
          rw [he] at hon
          cases hon
      | true =>
          rw [if_pos rfl]
          constructor
          · rintro ⟨u, hu⟩ log' hlog -
            cases hlog
            obtain ⟨_, v, hv, -⟩ := run_bind hu
            exact ⟨v, hv⟩
          · intro h
            obtain ⟨u, hu⟩ := h log rfl he
            exact ⟨_, (run_bind_ok hu).trans rfl⟩

/-- A debug record of the own log is written exactly if the log is there or can be made, and the delivery ends. -/
theorem debug_ok_iff {message : String} :
    (∃ u, debug Dispatch.ask (return message) w = .ok () u) ↔ Configured w ∧ Delivers w message := by
  rw [← named_ok_iff]
  constructor
  · rintro ⟨u, hu⟩
    obtain ⟨id, v, hnamed, hwrite⟩ := run_bind hu
    refine ⟨⟨id, v, hnamed⟩, fun id' v' log hnamed' => ?_⟩
    rw [hnamed] at hnamed'
    cases hnamed'
    exact write_ok_iff.mp ⟨u, hwrite⟩ log
  · rintro ⟨⟨id, v, hnamed⟩, hdelivers⟩
    obtain ⟨u, hu⟩ := write_ok_iff.mpr fun log => hdelivers id v log hnamed
    exact ⟨u, (run_bind_ok hnamed).trans hu⟩

/-! ## Handlers that leave flags alone -/

/-- Boxes keep their flags, and no handler is registered but some. -/
structure Undisturbed (P : Handler → Prop) (w v : World) : Prop where
  flags : w.KeepsFlags v
  handlers : (∀ h ∈ w.log.handlers, P h) → ∀ h ∈ v.log.handlers, P h

namespace Undisturbed

theorem refl (w : World) : Undisturbed P w w := ⟨fun _ _ h => h, id⟩

theorem trans (h : Undisturbed P w v) (h' : Undisturbed P v u) : Undisturbed P w u :=
  ⟨fun r tainted hr => h'.flags r tainted (h.flags r tainted hr), h'.handlers ∘ h.handlers⟩

theorem record (w : World) (config : Config) {book : LogBook}
    (h : (∀ x ∈ w.log.handlers, P x) → ∀ x ∈ book.handlers, P x) :
    Undisturbed P w { w with config := config, log := book } :=
  ⟨fun _ _ hr => hr, h⟩

theorem forward (w : World) (record : HostRecord) : Undisturbed P w (after (Act.modifyLog (·.forward record)) w) :=
  .record w w.config id

/-- What comes after the first computation only runs where that answers. -/
theorem bind (hm : Undisturbed P w (after m w)) (hf : ∀ a v, m w = .ok a v → Undisturbed P v (after (f a) v)) :
    Undisturbed P w (after (m >>= f) w) := by
  cases hrun : m w with
  | ok a v =>
      rw [after_bind_ok hrun]
      rw [after_of_ok hrun] at hm
      exact hm.trans (hf a v hrun)
  | error fault v =>
      rw [after_bind_error hrun]
      rw [after_of_error hrun] at hm
      exact hm

end Undisturbed

/-- All handlers are among some that change no flags and register none but such, in whatever way programs go on. -/
structure Spares (w : World) (P : Handler → Prop) : Prop where
  held : ∀ h ∈ w.log.handlers, P h
  receive : ∀ v, w.Evolves v → (∀ h ∈ v.log.handlers, P h) → ∀ h record, P h →
    Undisturbed P v (after (receive Dispatch.ask record h) v)
  text : ∀ v, w.Evolves v → (∀ h ∈ v.log.handlers, P h) → ∀ h, P h →
    Undisturbed P v (after (handlerText Dispatch.ask h) v)

namespace Spares

/-- Where a program goes on, handlers do as before. -/
theorem mono (h : Spares w P) (hv : w.Evolves v) (hp : ∀ x ∈ v.log.handlers, P x) : Spares v P :=
  ⟨hp, fun u hu => h.receive u (hv.trans hu), fun u hu => h.text u (hv.trans hu)⟩

theorem bind [Keeping m] (h : Spares w P) (hm : Undisturbed P w (after m w))
    (hf : ∀ a v, Spares v P → Undisturbed P v (after (f a) v)) : Undisturbed P w (after (m >>= f) w) := by
  refine hm.bind fun a v hrun => hf a v (h.mono (Keeping.evolves_of_ok hrun) ?_)
  rw [after_of_ok hrun] at hm
  exact hm.handlers h.held

/-- Every handler is given the record in turn. What each of them leaves is the world for the next. -/
theorem deliver (h : Spares w P) (name : String) (record : LogRecord) (steps position : Nat) :
    Undisturbed P w (after (deliver Dispatch.ask name record steps position) w) := by
  induction steps generalizing w position with
  | zero => exact .refl w
  | succ steps ih =>
      rw [Log.deliver, after_get]
      split
      · exact .refl w
      · rename_i handler hh
        have hp := h.held handler (List.mem_of_getElem? hh)
        refine h.bind (h.receive w .refl h.held handler record hp) fun fails v hv => ?_
        dsimp only
        split
        · refine hv.bind (hv.text v .refl hv.held handler hp) fun text u hu => ?_
          exact hu.bind (.forward u _) fun _ u' hu' => ih hu' _
        · exact ih hv _

theorem write (h : Spares w P) (id : Nat) (level : Level) (message : String) (hasCause : Bool) :
    Undisturbed P w (after (write Dispatch.ask id level message hasCause) w) := by
  rw [Log.write, after_get]
  split
  · exact .refl w
  · split
    · exact h.bind (h.deliver _ _ _ _) fun _ v _ => .forward v _
    · exact .refl w

/-- A record is written or not, and flags stay as they are. -/
theorem debug (h : Spares w P) (message : String) :
    Undisturbed P w (after (debug Dispatch.ask (return message)) w) := by
  obtain ⟨config, book, hnamed, hbook⟩ := after_named w
  have hm : Undisturbed P w (after (named ownName) w) := by
    rw [hnamed]
    exact .record w config fun hw => hbook ▸ hw
  rw [Log.debug]
  exact h.bind hm fun id v hv => hv.bind (.refl v) fun message u hu => hu.write id .debug message false

end Spares

/-! ## Recorders -/

def IsRecorder (h : Handler) : Prop := ∃ name, h = .recorder name

theorem isRecorder_edits {edits : List HandlerEdit} {book : LogBook} (h : ∀ x ∈ book.handlers, IsRecorder x) :
    ∀ x ∈ (edits.foldl LogBook.edit book).handlers, IsRecorder x := by
  induction edits generalizing book with
  | nil => exact h
  | cons e rest ih =>
      refine ih fun x hx => ?_
      cases e with
      | add name =>
          rcases List.mem_append.mp hx with hx | hx
          · exact h x hx
          · exact ⟨name, List.mem_singleton.mp hx⟩
      | remove name => exact h x (List.mem_of_mem_erase hx)

/-- Recorders keep records and change the list of handlers, and nothing else. -/
theorem spares_of_recorders (h : ∀ x ∈ w.log.handlers, IsRecorder x) : Spares w IsRecorder where
  held := h
  receive v _ hv x record hx := by
    obtain ⟨name, rfl⟩ := hx
    rw [Log.receive]
    refine .bind (.record v v.config id) fun _ u _ => ?_
    rw [after_get]
    split
    · exact .refl u
    · exact .bind (.record u u.config isRecorder_edits) fun _ u' _ => .refl u'
  text v _ hv x hx := by
    obtain ⟨name, rfl⟩ := hx
    exact .refl v

end Log

end Introspect
