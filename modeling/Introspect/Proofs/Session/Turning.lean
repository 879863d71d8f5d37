import Introspect.Proofs.Session.Passing
import Introspect.Session.Run
/-!
What sessions do to their worlds. Whatever a step ends with, a world in which everything is regular has passed from one
turn to the next, and so it has after every command.
-/
namespace Introspect

open World

variable {α β : Type}

namespace Session

/-- The session that a step leaves. -/
def after (m : Step α) (s : Session) : Session :=
  match m s with
  | .ok _ s => s
  | .error _ s => s

end Session

open Session

/-- Whatever the step ends with, the world of the session has passed on. -/
class Turning (m : Step α) : Prop where
  passes : ∀ s : Session, s.world.Regular → s.world.Passes (after m s).world

namespace Turning

/-- What follows a step may rely on what the step left. -/
theorem passes_bind {m : Step α} {f : α → Step β} {s : Session} (hs : s.world.Regular)
    (hm : s.world.Passes (after m s).world)
    (hf : ∀ a s', m s = .ok a s' → s'.world.Regular → s'.world.Passes (after (f a) s').world) :
    s.world.Passes (after (m >>= f) s).world := by
  unfold Session.after at hm ⊢
  cases h : m s with
  | ok a s' =>
      rw [h] at hm
      rw [run_bind_ok h]
      exact hm.trans (hf a s' h (hm.regular hs))
  | error fault s' =>
      rw [h] at hm
      rw [run_bind_error h]
      exact hm

instance pure (a : α) : Turning (Pure.pure a : Step α) := ⟨fun _ _ => .refl⟩

instance throw (fault : Fault) : Turning (MonadExcept.throw fault : Step α) := ⟨fun _ _ => .refl⟩

instance get : Turning (MonadState.get : Step Session) := ⟨fun _ _ => .refl⟩

instance bind {m : Step α} {f : α → Step β} [hm : Turning m] [hf : ∀ a, Turning (f a)] : Turning (m >>= f) :=
  ⟨fun s hs => passes_bind hs (hm.passes s hs) fun a s' _ hs' => (hf a).passes s' hs'⟩

theorem andThen {m : Step α} {f : α → Step β} [Turning m] (hf : ∀ a, Turning (f a)) : Turning (m >>= f) :=
  Turning.bind

instance ite {m m' : Step α} {p : Prop} [Decidable p] [Turning m] [Turning m'] : Turning (if p then m else m') := by
  split <;> infer_instance

instance mapM {σ : Type} {l : List σ} {f : σ → Step α} [hf : ∀ x, Turning (f x)] : Turning (l.mapM f) := by
  induction l with
  | nil => exact .pure _
  | cons x rest ih =>
      rw [List.mapM_cons]
      infer_instance

theorem run_act {x : Act α} {s s' : Session} {a : α} (h : (liftM x : Step α) s = .ok a s') :
    ∃ v, x s.world = .ok a v ∧ s' = { s with world := v } := by
  change Session.act x s = _ at h
  unfold Session.act at h
  cases hx : x s.world with
  | ok b v => rw [hx] at h; cases h; exact ⟨v, rfl, rfl⟩
  | error fault v => rw [hx] at h; cases h

theorem world_after_act (x : Act α) (s : Session) : (after (act x) s).world = World.after x s.world := by
  unfold Session.after World.after act
  cases x s.world <;> rfl

instance act (x : Act α) [hx : Passing x] : Turning (act x) :=
  ⟨fun s _ => by
    rw [world_after_act]
    exact hx.passes s.world⟩

instance lift (x : Act α) [Passing x] : Turning (liftM x : Step α) := Turning.act x

/-- What changes no world. -/
theorem modify {f : Session → Session} (h : ∀ s, (f s).world = s.world) : Turning (modify f : Step PUnit) :=
  ⟨fun s _ => by
    change s.world.Passes (f s).world
    rw [h]⟩

instance known (pairs : List (String × α)) (name : String) : Turning (known pairs name) := by
  unfold Session.known
  split <;> infer_instance

/-! ## Literals -/

mutual

theorem build (e : Literal) : Turning e.build := by
  match e with
  | .atom a => unfold Literal.build; infer_instance
  | .tainted s => unfold Literal.build; infer_instance
  | .collection kind items => have := buildItems items; unfold Literal.build; infer_instance
  | .mapping kind pairs => have := buildPairs pairs; unfold Literal.build; infer_instance
  | .range start stop step => unfold Literal.build; infer_instance
  | .byteArray content => unfold Literal.build; infer_instance
  | .box value tainted => have := build value; unfold Literal.build; infer_instance
  | .routine name => unfold Literal.build; infer_instance
  | .partialCall name => unfold Literal.build; infer_instance
  | .bound e name => have := build e; unfold Literal.build; infer_instance
  | .stream => unfold Literal.build; infer_instance
  | .bareObject => unfold Literal.build; infer_instance
  | .ellipsis => unfold Literal.build; infer_instance
  | .cls id => unfold Literal.build; infer_instance
  | .type t => have := resolve t; unfold Literal.build; infer_instance
  | .error e => unfold Literal.build; exact buildError e
  | .known name => unfold Literal.build; infer_instance
  | .object cls none attributes => have := buildAttributes attributes; unfold Literal.build; infer_instance
  | .object cls (some content) attributes =>
      have := build content
      have := buildAttributes attributes
      unfold Literal.build
      infer_instance

theorem buildItems (es : List Literal) : Turning (Session.buildItems es) := by
  match es with
  | [] => unfold Session.buildItems; infer_instance
  | e :: rest => have := build e; have := buildItems rest; unfold Session.buildItems; infer_instance

theorem buildPairs (es : List (Literal × Literal)) : Turning (Session.buildPairs es) := by
  match es with
  | [] => unfold Session.buildPairs; infer_instance
  | (k, v) :: rest =>
      have := build k
      have := build v
      have := buildPairs rest
      unfold Session.buildPairs
      infer_instance

theorem buildAttributes (es : List (String × Literal)) : Turning (Session.buildAttributes es) := by
  match es with
  | [] => unfold Session.buildAttributes; infer_instance
  | (name, e) :: rest =>
      have := build e
      have := buildAttributes rest
      unfold Session.buildAttributes
      infer_instance

theorem resolve (t : TypeTerm) : Turning t.resolve := by
  match t with
  | .named qname true => unfold TypeTerm.resolve; infer_instance
  | .named qname false => unfold TypeTerm.resolve; infer_instance
  | .ofClass id => unfold TypeTerm.resolve; infer_instance
  | .of e => have := build e; unfold TypeTerm.resolve; infer_instance
  | .held name => unfold TypeTerm.resolve; infer_instance

theorem buildError (e : ErrorTerm) : Turning e.build := by
  match e with
  | .own kind message none => have := build message; unfold ErrorTerm.build; infer_instance
  | .own kind message (some cause) =>
      have := build message
      have := buildError cause
      unfold ErrorTerm.build
      infer_instance
  | .host kind message => unfold ErrorTerm.build; infer_instance

end

attribute [instance] build buildItems buildPairs buildAttributes resolve buildError

/-! ## Bodies of functions -/

mutual

theorem traverse {f : α → Step β} [∀ x, Turning (f x)] (e : Expr α) : Turning (e.traverse f) := by
  match e with
  | .value v => unfold Expr.traverse; infer_instance
  | .self | .arg index | .keyword name | .argCount | .attribute name | .notImplemented | .raise fault =>
      unfold Expr.traverse; infer_instance
  | .get e name | .text e | .isInstance e cls | .className e =>
      have := traverse (f := f) e; unfold Expr.traverse; infer_instance
  | .list items => have := traverseItems (f := f) items; unfold Expr.traverse; infer_instance
  | .add a b | .equal a b => have := traverse (f := f) a; have := traverse (f := f) b; unfold Expr.traverse; infer_instance
  | .cond c t e =>
      have := traverse (f := f) c
      have := traverse (f := f) t
      have := traverse (f := f) e
      unfold Expr.traverse
      infer_instance
  | .call e name args =>
      have := traverse (f := f) e
      have := traverseItems (f := f) args
      unfold Expr.traverse
      infer_instance
  | .super args keywords none asType =>
      have := traverseItems (f := f) args
      have := traversePairs (f := f) keywords
      unfold Expr.traverse
      infer_instance
  | .super args keywords (some subject) asType =>
      have := traverseItems (f := f) args
      have := traversePairs (f := f) keywords
      have := traverse (f := f) subject
      unfold Expr.traverse
      infer_instance

theorem traverseItems {f : α → Step β} [∀ x, Turning (f x)] (es : List (Expr α)) : Turning (Expr.traverseItems f es) := by
  match es with
  | [] => unfold Expr.traverseItems; infer_instance
  | e :: rest => have := traverse (f := f) e; have := traverseItems (f := f) rest; unfold Expr.traverseItems; infer_instance

theorem traversePairs {f : α → Step β} [∀ x, Turning (f x)] (es : List (String × Expr α)) :
    Turning (Expr.traversePairs f es) := by
  match es with
  | [] => unfold Expr.traversePairs; infer_instance
  | (name, e) :: rest =>
      have := traverse (f := f) e
      have := traversePairs (f := f) rest
      unfold Expr.traversePairs
      infer_instance

end

attribute [instance] traverse

/-! ## Classes -/

instance newFunction (f : Function) : Passing (newFunction f) := ⟨fun w => .single (.define w f)⟩

instance entryOr (e : Option Entry) : Keeping (entryOr e) := by
  unfold Session.entryOr
  split <;> infer_instance

instance buildEntry (found : List (String × Entry)) (key : String) (term : EntryTerm) :
    Turning (buildEntry found key term) := by
  unfold Session.buildEntry
  split
  case h_1 => dsimp only; infer_instance
  all_goals infer_instance

instance buildEntries (found : List (String × Entry)) (terms : List (String × EntryTerm)) :
    Turning (buildEntries found terms) := by
  induction terms generalizing found with
  | nil => exact .pure _
  | cons term rest ih =>
      unfold Session.buildEntries
      infer_instance

instance announce (c : ClassId) : Keeping (announce c) := by
  unfold Session.announce
  refine .andThen fun w => ?_
  split <;> infer_instance

theorem passes_forget {w : World} {i : Nat} (hi : i < w.classes.size) : w.Passes (w.forget (.declared i)) := by
  refine .head (.unbind w (.declared i)) (.single (.collect _ [.declared i] fun c hc => ?_))
  rw [List.mem_singleton.mp hc]
  exact ⟨⟨i, by simpa only [World.unbindClass, Array.size_map] using hi, rfl⟩,
    fun p hp => by simpa using (List.mem_filter.mp hp).2⟩

/-- A class that is not refused is introduced as a program does it. -/
theorem evolves_introduce {w v : World} {c : ClassId} (h : introduce c w = .ok () v) : w.Evolves v := by
  change EStateM.tryCatch (Session.announce c) _ w = _ at h
  unfold EStateM.tryCatch at h
  cases ha : Session.announce c w with
  | ok _ v' =>
      rw [ha] at h
      cases h
      exact Keeping.evolves_of_ok ha
  | error fault v' =>
      rw [ha] at h
      cases h

theorem passes_introduce {w : World} {i : Nat} (hi : i < w.classes.size) :
    w.Passes (World.after (introduce (.declared i)) w) := by
  have hannounced := (Turning.announce (.declared i)).evolves w
  change w.Passes (World.after (EStateM.tryCatch (Session.announce (.declared i)) _) w)
  unfold World.after EStateM.tryCatch at *
  cases ha : Session.announce (.declared i) w with
  | ok _ v =>
      rw [ha] at hannounced
      exact hannounced.passes
  | error fault v =>
      rw [ha] at hannounced
      exact hannounced.passes.trans (passes_forget (by rwa [hannounced.keeps.classes]))

theorem run_classNamed {w v : World} {id : String} {c : ClassId} (h : Act.classNamed id w = .ok c v) :
    v = w ∧ Dispatch.classNamed? w id = some c := by
  rw [Act.classNamed, run_get] at h
  cases hc : Dispatch.classNamed? w id with
  | none => rw [hc] at h; cases h
  | some c' => rw [hc] at h; cases h; exact ⟨rfl, rfl⟩

/-- Classes are looked up by their identifiers in one world. -/
theorem run_classesNamed {s s' : Session} {ids : List String} {cs : List ClassId}
    (h : (ids.mapM fun id => (liftM (Act.classNamed id) : Step ClassId)) s = .ok cs s') :
    s' = s ∧ ∀ c ∈ cs, ∃ id, Dispatch.classNamed? s.world id = some c := by
  induction ids generalizing s cs with
  | nil =>
      cases h
      exact ⟨rfl, fun c hc => absurd hc List.not_mem_nil⟩
  | cons id rest ih =>
      rw [List.mapM_cons] at h
      obtain ⟨c, s₁, hc, h⟩ := run_bind h
      obtain ⟨found, s₂, hfound, h⟩ := run_bind h
      cases h
      obtain ⟨v, hrun, rfl⟩ := run_act hc
      obtain ⟨rfl, hnamed⟩ := run_classNamed hrun
      obtain ⟨rfl, hmore⟩ := ih hfound
      refine ⟨rfl, fun b hb => ?_⟩
      rcases List.mem_cons.mp hb with rfl | hb
      · exact ⟨id, hnamed⟩
      · exact hmore b hb

theorem usable_classNamed {w : World} (hw : w.Regular) {id : String} {c : ClassId}
    (h : Dispatch.classNamed? w id = some c) : w.Usable c := by
  rcases Option.or_eq_some_iff.mp h with h | ⟨-, h⟩
  · exact hw.named (id, c) (Pairs.mem_of_lookup h)
  · obtain ⟨n, -, rfl⟩ := Option.map_eq_some_iff.mp h
    exact hw.usable_native n

theorem run_declare {w v : World} {d : Declaration} {c : ClassId} (h : Act.declare d w = .ok c v) :
    c = .declared w.classes.size ∧ v.classes.size = w.classes.size + 1 ∧ v.dropped = w.dropped := by
  rw [Act.declare, run_get] at h
  cases hx : d.info w (.declared w.classes.size) with
  | error fault => simp only [hx, Act.liftExcept] at h; cases h
  | ok x =>
      simp only [hx, Act.liftExcept] at h
      cases h
      exact ⟨rfl, Array.size_push .., rfl⟩

theorem passes_declare {w : World} {d : Declaration} (hbases : ∀ b ∈ d.bases, w.Usable b) :
    w.Passes (World.after (Act.declare d) w) := by
  rw [World.after, Act.declare, run_get]
  cases hx : d.info w (.declared w.classes.size) with
  | error fault => simp only [Act.liftExcept]; exact .refl
  | ok x => simp only [Act.liftExcept]; exact .single (.declare w d x hbases hx)

instance declare (term : ClassTerm) : Turning (declare term) := by
  refine ⟨fun s hs => ?_⟩
  unfold Session.declare
  refine passes_bind hs (Turning.passes s hs) fun entries s₁ _ hs₁ => ?_
  refine passes_bind hs₁ (Turning.passes s₁ hs₁) fun bases s₂ hbases hs₂ => ?_
  obtain ⟨rfl, hnamed⟩ := run_classesNamed hbases
  have husable : ∀ b ∈ bases, s₂.world.Usable b := fun b hb => by
    obtain ⟨id, hid⟩ := hnamed b hb
    exact usable_classNamed hs₂ hid
  refine passes_bind hs₂ ?_ fun c s₃ hs₂₃ hs₃ => ?_
  · exact world_after_act (Act.declare _) s₂ ▸ passes_declare husable
  obtain ⟨v, hdeclared, rfl⟩ := run_act hs₂₃
  obtain ⟨rfl, hsize, hdropped⟩ := run_declare hdeclared
  have hnext : s₂.world.classes.size < v.classes.size := by omega
  refine passes_bind hs₃ ?_ fun _ s₄ hs₃₄ hs₄ => ?_
  · exact world_after_act (introduce _) _ ▸ passes_introduce hnext
  obtain ⟨u, hintroduced, rfl⟩ := run_act hs₃₄
  have hkeeps := (evolves_introduce hintroduced).keeps
  have hnew : u.Usable (.declared s₂.world.classes.size) := by
    refine ⟨fun i hi => ?_, fun hd => ?_⟩
    · cases hi
      exact hkeeps.classes ▸ hnext
    · rw [hkeeps.dropped, hdropped] at hd
      obtain ⟨i, hi, heq⟩ := hs₂.dropped _ hd
      cases heq
      exact Nat.lt_irrefl _ hi
  refine passes_bind hs₄ (.single (.identify u term.id _ hnew)) fun _ s₅ _ hs₅ => ?_
  split <;> exact Turning.passes s₅ hs₅

theorem subset_reachWithin (w : World) (rounds : Nat) (found : List Ref) : found ⊆ w.reachWithin rounds found := by
  induction rounds generalizing found with
  | zero => exact List.Subset.refl found
  | succ rounds ih =>
      unfold World.reachWithin
      dsimp only
      split
      · exact List.Subset.refl found
      · exact List.Subset.trans (List.subset_append_left ..) (ih _)

theorem reaches_of_mem_roots {s : Session} {r : Ref} (h : r ∈ s.roots) : s.reaches r = true :=
  List.contains_iff_mem.mpr (subset_reachWithin _ _ _ h)

theorem reaches_of_mem_ids {s : Session} {p : String × ClassId} (h : p ∈ s.world.ids) : s.reaches (.cls p.2) = true := by
  refine reaches_of_mem_roots ?_
  simp only [Session.roots, List.mem_append]
  exact .inl (.inl (.inr (List.mem_map_of_mem h)))

theorem passes_collect (s : Session) : s.world.Passes { s.world with dropped := s.strays ++ s.world.dropped } := by
  refine .single (.collect s.world s.strays fun c hc => ?_)
  obtain ⟨hdeclared, hstray⟩ := List.mem_filter.mp hc
  obtain ⟨i, hi, rfl⟩ := List.mem_map.mp hdeclared
  refine ⟨⟨i, List.mem_range.mp hi, rfl⟩, fun p hp hpc => ?_⟩
  rw [← hpc, reaches_of_mem_ids hp] at hstray
  cases hstray

instance drop (c : ClassId) : Turning (Session.drop c) := by
  unfold Session.drop
  exact @Turning.bind _ _ _ _ inferInstance fun _ => ⟨fun s _ => passes_collect s⟩

instance performClass (command : ClassCommand) : Turning (performClass command) := by
  unfold Session.performClass
  cases command with
  | drop id =>
      refine .andThen fun c => ?_
      split <;> infer_instance
  | hold name type => exact .andThen fun id => @Turning.bind _ _ _ _ (.modify fun _ => rfl) inferInstance
  | release name =>
      exact .andThen fun s => .andThen fun _ => @Turning.bind _ _ _ _ (.modify fun _ => rfl) inferInstance
  | _ => infer_instance

/-! ## Handles, types and slots -/

instance qnames (ids : List Nat) : Keeping (Session.qnames ids) := by
  unfold Session.qnames
  infer_instance

instance performHandle (h : Handle) (command : HandleCommand) : Turning (performHandle h command) := by
  unfold Session.performHandle
  cases command with
  | can name =>
      refine .andThen fun type => .andThen fun op => ?_
      split <;> infer_instance
  | _ => infer_instance

instance performType (id : Nat) (command : TypeCommand) : Turning (performType id command) := by
  unfold Session.performType
  cases command with
  | cls =>
      refine .andThen fun c => ?_
      split <;> infer_instance
  | method name checked =>
      cases checked with
      | true => infer_instance
      | false =>
          refine .andThen fun op => ?_
          split <;> infer_instance
  | _ => infer_instance

instance slot (slot : SlotTerm) : Turning slot.resolve := by
  unfold SlotTerm.resolve
  split
  case h_3 =>
    refine .andThen fun id => ?_
    split <;> infer_instance
  all_goals infer_instance

instance ownerClass (r : Ref) : Keeping (ownerClass r) := by
  unfold Session.ownerClass
  split <;> infer_instance

instance performSlot (op : Operation) (command : SlotCommand) : Turning (performSlot op command) := by
  unfold Session.performSlot Session.buildKeywords
  split <;> infer_instance

/-! ## Values -/

instance performMutation (r : Ref) (mutation : Mutation) : Turning (performMutation r mutation) := by
  unfold Session.performMutation Dispatch.setItem Dispatch.deleteItem Dispatch.append Dispatch.add
  split <;> infer_instance

instance fieldsReport (r : Ref) : Keeping (fieldsReport r) := by
  unfold Session.fieldsReport
  infer_instance

instance inspect (inspection : Inspection) (args : List Ref) : Keeping (inspect inspection args) := by
  unfold Session.inspect
  split <;> infer_instance

instance performBox (r : Ref) (command : BoxCommand) : Turning (performBox r command) := by
  unfold Session.performBox
  split <;> infer_instance

instance encode (r : Ref) (encoding : Encoding) : Keeping (encode r encoding) := by
  unfold Session.encode
  split <;> infer_instance

instance errorReport (r other : Ref) : Keeping (errorReport r other) := by
  unfold Session.errorReport
  refine .andThen fun text => .andThen fun ownText => .andThen fun own => .andThen fun ownMessage => .andThen fun msg =>
    .andThen fun ownCause => .andThen fun cause => .andThen fun trace => .andThen fun type => .andThen fun w => ?_
  dsimp only
  infer_instance

instance performValue (command : ValueCommand) : Turning (performValue command) := by
  unfold Session.performValue
  cases command with
  | assign name value =>
      refine .andThen fun r => @Turning.bind _ _ _ _ (.modify fun _ => rfl) inferInstance
  | _ => infer_instance

/-! ## Digests, configuration and logs -/

instance bytesOf (r : Ref) : Keeping (bytesOf r) := by
  unfold Session.bytesOf
  refine .andThen fun w => ?_
  split <;> infer_instance

instance setDigest (name : String) (d : Digest) : Turning (setDigest name d) := .modify fun _ => rfl

instance digestOf (data algorithm format : Ref) : Keeping (Session.checksum data algorithm format) := by
  unfold Session.checksum
  infer_instance

instance performDigest (command : DigestCommand) : Turning (performDigest command) := by
  unfold Session.performDigest
  split <;> infer_instance

instance modifyConfig (f : Config → Config) : Turning (modifyConfig f) := by
  unfold Session.modifyConfig
  infer_instance

instance performConfig (command : ConfigCommand) : Turning (performConfig command) := by
  unfold Session.performConfig
  cases command with
  | value key fallback =>
      refine .andThen fun fallback => .andThen fun value => ?_
      split <;> infer_instance
  | home directory => cases directory <;> infer_instance
  | _ => infer_instance

instance logId (name : String) : Turning (logId name) := by
  unfold Session.logId
  infer_instance

instance logOf (name : String) : Turning (logOf name) := by
  unfold Session.logOf
  refine .andThen fun s => .andThen fun id => ?_
  split <;> infer_instance

instance nameLog (as : String) (id : Nat) : Turning (nameLog as id) := .modify fun _ => rfl

instance logName (r : Ref) : Keeping (logName r) := by
  unfold Session.logName
  refine .andThen fun w => ?_
  split <;> infer_instance

instance levelNamed (name : String) : Keeping (levelNamed name) := by
  unfold Session.levelNamed
  split <;> infer_instance

instance performLog (command : LogCommand) : Turning (performLog command) := by
  unfold Session.performLog
  cases command with
  | write on level message cause =>
      refine .andThen fun id => ?_
      cases cause <;> infer_instance
  | ofText value checked =>
      refine .andThen fun r => .andThen fun text => ?_
      split <;> infer_instance
  | _ => infer_instance

/-! ## Commands -/

instance perform (c : Command) : Turning (perform c) := by
  unfold Session.perform
  cases c with
  | type type command =>
      refine .andThen fun id => ?_
      split <;> infer_instance
  | slot slot command =>
      refine .andThen fun op => ?_
      split <;> infer_instance
  | bareSlot name flags parent => cases parent <;> infer_instance
  | _ => infer_instance

end Turning

theorem Session.snd_answer (s : Session) (c : Command) : (s.answer c).2 = (Session.after (perform c) s).swept := by
  unfold Session.answer Session.after
  cases perform c s <;> rfl

/-- What a command does to the world, it does in turns. -/
theorem Session.passes_answer {s : Session} (hs : s.world.Regular) (c : Command) :
    s.world.Passes (s.answer c).2.world := by
  rw [s.snd_answer]
  exact ((Turning.perform c).passes s hs).tail (.sweep _ _)

end Introspect
