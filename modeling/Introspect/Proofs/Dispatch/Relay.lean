import Mathlib.Data.List.Find
import Introspect.Proofs.Dispatch.Handover
import Introspect.Proofs.Dispatch.Super
import Introspect.Proofs.Reflect.Implementations
/-!
Methods that call the next implementation. Where no code is shared along the ancestry of a receiver, a
call of the first implementation runs each implementation once, in the order of dispatch, and fails
where the last one calls the next.
-/
namespace Introspect.World

open Dispatch

/-- The operation is a method, a function with the code of the given one. That is the function itself or
the one that it wraps. -/
structure IsMethod (w : World) (op : Operation) (i j : Nat) (f : Function) : Prop where
  entry : op.entry = .value (.routine (.function i))
  code : w.functionCode? i = some (.function j)
  function : w.function? j = some f
  wraps : f.wraps = none
  receiver : f.takesReceiver = true

/-- The world with the function bound to the receiver. -/
def withMethod (w : World) (r : Ref) (i : Nat) : World :=
  { w with cells := w.cells.push ⟨.native .boundMethod, .bound r (.routine (.function i)), [], none⟩ }

/-- How many levels of nesting a call takes up before the code runs. -/
def levels (i j : Nat) : Nat := if i = j then 2 else 3

/-- Under the limit, a call of the operation on the receiver runs the code of the function, which comes
to a call of the next implementation. -/
inductive Runs (r : Ref) (op : Operation) (args : List Ref) (keywords : List (String × Ref)) (v : World) :
    Nat → Nat → Handover → Prop where
  | intro {d i j f h} : IsMethod v op i j f →
      Comes d ⟨some r, args, keywords, j⟩ f.body (v.withMethod r i) h →
      Runs r op args keywords v (d + levels i j) j h

/-- A call of the first operation runs the operations one after the other, each called as the next
implementation by the one before, and fails as this call does in the last one. -/
inductive Relay (r : Ref) (c : ClassId) (fault : Fault) (u : World) :
    Nat → List Operation → List Ref → List (String × Ref) → World → Prop where
  | last {d op args keywords v i h} : Runs r op args keywords v d i h →
      h.run r i h.world = .error fault u → Relay r c fault u d [op] args keywords v
  | hop {d op op' ops args keywords v i h v'} : Runs r op args keywords v d i h →
      h.run r i h.world = callOn (perform h.depth) op' (some r) c h.args h.keywords v' →
      Relay r c fault u h.depth (op' :: ops) h.args h.keywords v' →
      Relay r c fault u d (op :: op' :: ops) args keywords v

variable {w v u : World} {r : Ref} {c : ClassId} {op : Operation} {i j d : Nat} {f : Function}
  {args : List Ref} {keywords : List (String × Ref)} {h : Handover} {fault : Fault}

/-! ## Calls of methods -/

theorem call_withMethod : perform (d + 2) (.call (.cell v.cells.size) args keywords) (v.withMethod r i) =
    callFunction (perform d) i (r :: args) keywords (v.withMethod r i) := by
  have hcell : (v.withMethod r i).body (.cell v.cells.size) = .bound r (.routine (.function i)) := by
    simp [World.body, withMethod]
  have hbound : perform (d + 2) (.call (.cell v.cells.size) args keywords) (v.withMethod r i) =
      perform (d + 1) (.call (.routine (.function i)) (r :: args) keywords) (v.withMethod r i) := by
    rw [perform, handle, call, run_get, hcell]
  rw [hbound]
  rfl

theorem callOn_method (he : op.entry = .value (.routine (.function i))) :
    callOn (perform (d + 2)) op (some r) c args keywords v =
      callFunction (perform d) i (r :: args) keywords (v.withMethod r i) := by
  have hbind : bindEntry (perform (d + 2)) (some r) c op.owner op.name op.entry v =
      .ok (.cell v.cells.size) (v.withMethod r i) := by
    rw [he]
    rfl
  rw [callOn, run_bind_ok hbind]
  exact call_withMethod

/-- A function that wraps no other runs its body. -/
theorem callFunction_plain (hf : v.function? i = some f) (hwraps : f.wraps = none)
    (htakes : f.takesReceiver = true) :
    callFunction (perform d) i (r :: args) keywords v =
      perform d (.eval ⟨some r, args, keywords, i⟩ f.body) v := by
  rw [callFunction, run_get, hf]
  simp only [hwraps, htakes, if_true]

/-- A wrapper fails as the function that it wraps does. -/
theorem callFunction_wraps_error {wrapper : Function} (hf : v.function? i = some wrapper)
    (hwraps : wrapper.wraps = some j)
    (herror : callFunction (perform d) j args keywords v = .error fault u) :
    callFunction (perform (d + 1)) i args keywords v = .error fault u := by
  rw [callFunction, run_get, hf]
  simp only [hwraps]
  exact run_bind_error herror

theorem functionCode?_eq_some (hcode : v.functionCode? i = some (.function j)) :
    ∃ f, v.function? i = some f ∧ (f.wraps = some j ∨ f.wraps = none ∧ i = j) := by
  unfold functionCode? at hcode
  cases hf : v.function? i with
  | none =>
      rw [hf] at hcode
      cases hcode
  | some f =>
      rw [hf] at hcode
      cases hloop : f.looped <;> cases hwraps : f.wraps <;> simp_all

theorem Runs.callOn_error (hruns : Runs r op args keywords v d j h)
    (hrun : h.run r j h.world = .error fault u) :
    callOn (perform d) op (some r) c args keywords v = .error fault u := by
  obtain @⟨d, i, j, f, h, hm, hcomes⟩ := hruns
  have hf : (v.withMethod r i).function? j = some f := hm.function
  have hplain : callFunction (perform d) j (r :: args) keywords (v.withMethod r i) = .error fault u :=
    (callFunction_plain hf hm.wraps hm.receiver).trans (hcomes.eval_error hrun)
  obtain ⟨f', hf', hwraps⟩ := functionCode?_eq_some hm.code
  unfold levels
  split
  case isTrue hij =>
    rw [callOn_method hm.entry, hij]
    rw [hij] at hplain
    exact hplain
  case isFalse hij =>
    have hwraps : f'.wraps = some j := hwraps.resolve_right fun hsame => hij hsame.2
    exact (callOn_method hm.entry).trans (callFunction_wraps_error hf' hwraps hplain)

theorem Relay.callOn_error {ops : List Operation}
    (hrelay : Relay r c fault u d (op :: ops) args keywords v) :
    callOn (perform d) op (some r) c args keywords v = .error fault u := by
  generalize hlist : op :: ops = list at hrelay
  induction hrelay generalizing op ops with
  | last hruns hrun =>
      cases hlist
      exact hruns.callOn_error hrun
  | hop hruns hrun _ ih =>
      cases hlist
      exact hruns.callOn_error (hrun.trans (ih rfl))

theorem IsMethod.runningCode? (hm : w.IsMethod op i j f) : w.runningCode? op = some (.function j) := by
  rw [World.runningCode?, hm.entry]
  exact hm.code

theorem IsMethod.keeps (hm : w.IsMethod op i j f) (hk : w.Keeps v) : v.IsMethod op i j f where
  entry := hm.entry
  code := (hk.functionCode? i).trans hm.code
  function := (hk.function? j).trans hm.function
  wraps := hm.wraps
  receiver := hm.receiver

/-! ## The search in a later world -/

variable {ancestry : Ancestry} {code : Routine} {name : String} {done later ops : List Operation} {g : Registry}

theorem Keeps.caller? (hk : w.Keeps v) (hh : w.HoldsEntries c) (hsub : ∀ p ∈ ancestry, p.1 ∈ w.ancestry c) :
    v.caller? code ancestry = w.caller? code ancestry := by
  induction ancestry with
  | nil => rfl
  | cons p rest ih =>
      obtain ⟨a, registered⟩ := p
      obtain ⟨ha, hrest⟩ := List.forall_mem_cons.mp hsub
      have hfind : ((w.declared a).find? fun op => v.entryCode? op.name op.entry = some code) =
          (w.declared a).find? fun op => w.entryCode? op.name op.entry = some code := by
        refine List.find?_congr fun op hop => ?_
        obtain ⟨q, hq, rfl⟩ := List.mem_map.mp hop
        rw [hk.entryCode? (hh a ha q (List.mem_of_mem_filter hq))]
      rw [World.caller?, World.caller?, hk.declared hh ha, hfind, ih hrest]

theorem Keeps.parent? (hk : w.Keeps v) (hh : w.HoldsEntries c) (hsub : ∀ p ∈ ancestry, p.1 ∈ w.ancestry c) :
    v.parent? name ancestry = w.parent? name ancestry := by
  induction ancestry with
  | nil => rfl
  | cons p rest ih =>
      obtain ⟨ha, hrest⟩ := List.forall_mem_cons.mp hsub
      rw [World.parent?, World.parent?, declared?, declared?, hk.declared hh ha, ih hrest]

theorem Keeps.lineage (hk : w.Keeps v) (hs : w.registry.Sound) : v.lineage c = w.lineage c := by
  simp only [World.lineage, hk.ancestry, (hk.registry hs).2]

/-! ## From one implementation to the next -/

/-- The classes of nothing declare no methods. -/
theorem receiver?_eq {a : ClassId} (hop : op ∈ w.declared a) (ha : a ∈ w.ancestry (w.classOf r))
    (hm : w.IsMethod op i j f) : receiver? r = some r := by
  unfold receiver?
  split
  · obtain ⟨n, -, rfl⟩ := List.mem_map.mp ha
    obtain ⟨p, hp, rfl⟩ := List.mem_map.mp hop
    obtain ⟨q, -, rfl⟩ := List.mem_map.mp (List.mem_of_mem_filter hp)
    cases hm.entry
  · rfl

/-- Where the code of an implementation runs, a call of the next implementation calls the one that
stands behind it, and fails if there is none. -/
theorem run_eq (hs : w.registry.Sound) (hr : w.Has r) (ha : w.isAlive (w.classOf r) = true)
    (hn : (w.ancestry (w.classOf r)).Nodup) (hh : w.HoldsEntries (w.classOf r))
    (hu : w.Unshared (w.classOf r)) (hname : w.HasProperName (w.classOf r) name)
    (hops : w.implementations (w.classOf r) name = done ++ op :: later)
    (hcode : w.runningCode? op = some (.function j)) (hk : w.Keeps h.world) :
    ∃ g id, h.world.Enrolls g ∧ h.run r j h.world =
      match later.head? with
      | none => .error (.noParent name (Registry.typeName w r)) (h.world.registered g)
      | some op' => callReported (perform h.depth) (Registry.typeName w r) name op' .asData r id h.args
          h.keywords (h.world.registered g) := by
  obtain ⟨rest, hcaller, hparent⟩ := caller?_of_implementations hn hu hname hops hcode
  obtain ⟨hsv, hdescriptor⟩ := hk.registry hs
  have hclass : h.world.classOf r = w.classOf r := hk.classOf hr
  have hlineage : ∀ p ∈ w.lineage (w.classOf r), p.1 ∈ w.ancestry (w.classOf r) := fun p hp =>
    mem_ancestry_of_lineage hp
  have hrest : ∀ p ∈ rest, p.1 ∈ w.ancestry (w.classOf r) := by
    obtain ⟨before, a, registered, -, hsplit, -⟩ := exists_of_caller? hcaller
    exact fun p hp => hlineage p (hsplit ▸ List.mem_append_right _ (List.mem_cons_of_mem _ hp))
  have hidentifies := identifies_asData hsv (perform h.depth) r
  rw [hclass, hdescriptor] at hidentifies
  have hcls : (w.descriptorOf (w.classOf r)).cls = w.classOf r := cls_descriptorOf hs
  have halive : h.world.isAlive (w.descriptorOf (w.classOf r)).cls = true := by
    rw [hcls, hk.isAlive, ha]
  obtain ⟨g, id, hg, -, hrun⟩ := callParent_eq (some (.function j))
    ((h.world.function? j).elim "" (·.name)) h.args h.keywords hsv hidentifies halive
  refine ⟨g, id, hg, ?_⟩
  rw [Handover.run, hrun, following, hcls, hk.lineage hs, Option.bind_some, hk.caller? hh hlineage, hcaller]
  simp only [hk.parent? hh hrest, hparent, typeName_eq]
  cases later <;> rfl

instance keeping_report (qname : String) : Keeping (report qname name op) := by
  unfold report
  infer_instance

theorem callReported_eq {ask : Ask} {qname : String} {id : Nat}
    (hdebug : Log.debug ask (report qname name op) v = .ok () u) (hreceiver : receiver? r = some r)
    (hclass : u.classOf r = c) :
    callReported ask qname name op .asData r id args keywords v = callOn ask op (some r) c args keywords u := by
  have htarget : superTarget .asData r id u = .ok (some r, c) u := by
    rw [superTarget, hreceiver, run_get, hclass]
    rfl
  rw [callReported, run_bind_ok hdebug, run_bind_ok htarget]

/-- Under each limit, and wherever the condition holds of a call, the operation is a method that comes to
a call of the next implementation. The call can be reported, and the condition holds of it. -/
def HandsOver (w : World) (r : Ref) (name : String) (ops : List Operation)
    (ready : List Ref → List (String × Ref) → World → Prop) (op : Operation) : Prop :=
  ∃ i j f cost, w.IsMethod op i j f ∧ ∀ d args keywords v, w.Keeps v → ready args keywords v →
    ∃ h, Comes (d + cost) ⟨some r, args, keywords, j⟩ f.body (v.withMethod r i) h ∧ d ≤ h.depth ∧
      ∀ op' ∈ ops, ∀ g, h.world.Enrolls g → ∃ u,
        Log.debug (perform h.depth) (report (Registry.typeName w r) name op') (h.world.registered g) =
          .ok () u ∧ ready h.args h.keywords u

variable {ready : List Ref → List (String × Ref) → World → Prop}

theorem keeps_withMethod : v.Keeps (v.withMethod r i) :=
  Keeping.of_ok (m := Act.alloc ⟨.native .boundMethod, .bound r (.routine (.function i)), [], none⟩) rfl

/-- The operation runs, with a bound for what its call takes up. -/
theorem HandsOver.exists_runs (hop : w.HandsOver r name ops ready op) :
    ∃ j cost, w.runningCode? op = some (.function j) ∧ ∀ d args keywords v, w.Keeps v →
      ready args keywords v → ∃ h, Runs r op args keywords v (d + cost) j h ∧ d ≤ h.depth ∧
        w.Keeps h.world ∧ ∀ op' ∈ ops, ∀ g, h.world.Enrolls g → ∃ u,
          Log.debug (perform h.depth) (report (Registry.typeName w r) name op') (h.world.registered g) =
            .ok () u ∧ ready h.args h.keywords u := by
  obtain ⟨i, j, f, cost, hm, hcomes⟩ := hop
  refine ⟨j, cost + levels i j, hm.runningCode?, fun d args keywords v hk hready => ?_⟩
  obtain ⟨h, hcomes, hd, hreport⟩ := hcomes d args keywords v hk hready
  refine ⟨h, ?_, hd, hk.trans (keeps_withMethod.trans hcomes.keeps), hreport⟩
  rw [← Nat.add_assoc]
  exact .intro (hm.keeps hk) hcomes

/-- From any implementation on, each runs once in the order of dispatch, and the last one finds no
other. -/
theorem exists_relay (hs : w.registry.Sound) (hr : w.Has r) (ha : w.isAlive (w.classOf r) = true)
    (hn : (w.ancestry (w.classOf r)).Nodup) (hh : w.HoldsEntries (w.classOf r))
    (hu : w.Unshared (w.classOf r)) (hname : w.HasProperName (w.classOf r) name)
    (hall : ∀ op ∈ w.implementations (w.classOf r) name,
      w.HandsOver r name (w.implementations (w.classOf r) name) ready op)
    (hops : w.implementations (w.classOf r) name = done ++ op :: later) :
    ∃ N, ∀ d args keywords v, N ≤ d → w.Keeps v → ready args keywords v → ∃ u,
      Relay r (w.classOf r) (.noParent name (Registry.typeName w r)) u d (op :: later) args keywords v := by
  induction later generalizing done op with
  | nil =>
      have hop := hall op (by simp [hops])
      obtain ⟨j, cost, hcode, hruns⟩ := hop.exists_runs
      refine ⟨cost, fun d args keywords v hd hk hready => ?_⟩
      obtain ⟨d, rfl⟩ := Nat.exists_eq_add_of_le' hd
      obtain ⟨h, hruns, -, hk', -⟩ := hruns d args keywords v hk hready
      obtain ⟨g, id, -, hrun⟩ := run_eq hs hr ha hn hh hu hname hops hcode hk'
      exact ⟨h.world.registered g, .last hruns hrun⟩
  | cons op' later ih =>
      have hmem : op ∈ w.implementations (w.classOf r) name := by simp [hops]
      have hop := hall op hmem
      have hsplit : w.implementations (w.classOf r) name = (done ++ [op]) ++ op' :: later := by
        simpa using hops
      obtain ⟨M, hlater⟩ := ih hsplit
      obtain ⟨j, cost, hcode, hruns⟩ := hop.exists_runs
      refine ⟨M + cost, fun d args keywords v hd hk hready => ?_⟩
      obtain ⟨d, rfl⟩ := Nat.exists_eq_add_of_le' hd
      rw [← Nat.add_assoc]
      obtain ⟨h, hruns, hdepth, hk', hreport⟩ := hruns (d + M) args keywords v hk hready
      obtain ⟨g, id, hg, hrun⟩ := run_eq hs hr ha hn hh hu hname hops hcode hk'
      obtain ⟨u, hdebug, hready'⟩ := hreport op' (by simp [hops]) g hg
      have hku : w.Keeps u := hk'.trans (hg.leads.grows.keeps.trans (Keeping.of_ok hdebug))
      obtain ⟨u', hrelay⟩ := hlater h.depth h.args h.keywords u (by omega) hku hready'
      obtain ⟨ho, hdeclared⟩ := mem_implementations hmem
      obtain ⟨i, k, f, -, hm, -⟩ := hop
      exact ⟨u', .hop hruns (hrun.trans (callReported_eq hdebug (receiver?_eq hdeclared ho hm)
        (hku.classOf hr))) hrelay⟩

/-- A call of the first implementation runs each implementation once, in the order of dispatch, and fails
because none stands behind the last one. -/
theorem relay_implementations (hs : w.registry.Sound) (hr : w.Has r)
    (ha : w.isAlive (w.classOf r) = true) (hn : (w.ancestry (w.classOf r)).Nodup)
    (hh : w.HoldsEntries (w.classOf r)) (hu : w.Unshared (w.classOf r))
    (hname : w.HasProperName (w.classOf r) name)
    (hall : ∀ op ∈ w.implementations (w.classOf r) name,
      w.HandsOver r name (w.implementations (w.classOf r) name) ready op)
    (hops : w.implementations (w.classOf r) name = op :: ops) (hready : ready args keywords w) :
    ∃ N, ∀ d ≥ N, ∃ u,
      Relay r (w.classOf r) (.noParent name (Registry.typeName w r)) u d (op :: ops) args keywords w ∧
      callOn (perform d) op (some r) (w.classOf r) args keywords w =
        .error (.noParent name (Registry.typeName w r)) u := by
  have hsplit : w.implementations (w.classOf r) name = [] ++ op :: ops := hops
  obtain ⟨N, hrelay⟩ := exists_relay hs hr ha hn hh hu hname hall hsplit
  refine ⟨N, fun d hd => ?_⟩
  obtain ⟨u, hrelay⟩ := hrelay d args keywords w hd (.refl w) hready
  exact ⟨u, hrelay, hrelay.callOn_error⟩

/-! ## Quiet logs -/

/-- The library's own log is there and does not take what is reported. -/
def HasQuietLog (w : World) : Prop :=
  ∃ id, w.log.registered.lookup Log.ownName = some id ∧
    ∀ log, w.log.logs[id]? = some log → LogBook.isEnabled log .debug = false

theorem report_eq {qname : String} (hs : v.registry.Sound) :
    ∃ g text, v.Enrolls g ∧ report qname name op v = .ok text (v.registered g) := by
  obtain ⟨g, id, hg, hid, hd⟩ := ofClass_eq hs op.owner
  have hholder : Registry.qname id (v.registered g) = .ok (v.descriptorOf op.owner).qname (v.registered g) := by
    rw [Registry.qname, run_bind_ok (descriptor_eq (w := v.registered g) hd)]
    rfl
  exact ⟨g, _, hg, (run_bind_ok hid).trans (run_bind_ok hholder)⟩

/-- On a quiet log, a report asks for a class and changes nothing else. -/
theorem debug_report {ask : Ask} {qname : String} (hg : v.Enrolls g) (hq : v.HasQuietLog) :
    ∃ g', v.Enrolls g' ∧ Log.debug ask (report qname name op) (v.registered g) = .ok () (v.registered g') := by
  obtain ⟨id, hid, hlog⟩ := hq
  obtain ⟨g', text, hg', hreport⟩ := report_eq (v := v.registered g) hg.sound
  have hnamed : Log.named Log.ownName (v.registered g) = .ok id (v.registered g) := by
    have hid : (v.registered g).log.registered.lookup Log.ownName = some id := hid
    rw [Log.named, run_get, hid]
    rfl
  refine ⟨g', hg.trans hg', (run_bind_ok hnamed).trans ((run_bind_ok hreport).trans ?_)⟩
  have hlog : ∀ log, (v.registered g').log.logs[id]? = some log → LogBook.isEnabled log .debug = false := hlog
  change Log.write ask id .debug text false (v.registered g') = _
  rw [Log.write, run_get]
  cases hl : (v.registered g').log.logs[id]? with
  | none => rfl
  | some log =>
      simp only [hlog log hl]
      rfl

/-! ## A private method along a diamond, and one without code -/

def helloBody : Expr Ref := .add (.list [.self]) (.super [] [] none false)

/-- Two parents of one class. One of them has no method of its own. -/
def relaying : World :=
  { Session.initialWorld with
    classes := #[programClass "Top" [.declared 0, .native .object]
        [("_Top__hello", .value (.routine (.function 0)))],
      programClass "Left" [.declared 1, .declared 0, .native .object] [],
      programClass "Right" [.declared 2, .declared 0, .native .object]
        [("_Right__hello", .value (.routine (.function 1)))],
      programClass "Bottom" [.declared 3, .declared 1, .declared 2, .declared 0, .native .object]
        [("_Bottom__hello", .value (.routine (.function 2)))]]
    functions := #[⟨"hello", helloBody, true, none, false, false⟩, ⟨"hello", helloBody, true, none, false, false⟩,
      ⟨"hello", helloBody, true, none, false, false⟩]
    cells := #[⟨.declared 3, .nothing, [], some []⟩]
    log := (LogBook.empty.create Log.ownName .info true).1 }

def helloOf (declared i : Nat) (key : String) : Operation :=
  ⟨.declared declared, key, .value (.routine (.function i)), false⟩

theorem holdsEntry_routine {code : Routine} : w.HoldsEntry (.value (.routine code)) :=
  ⟨trivial, fun _ _ hbound => by cases hbound⟩

theorem handsOver_hello {ops : List Operation} {declared i : Nat} {key : String}
    (hi : relaying.function? i = some ⟨"hello", helloBody, true, none, false, false⟩) :
    relaying.HandsOver (.cell 0) "__hello" ops
      (fun args keywords v => args = [] ∧ keywords = [] ∧ v.registry.Sound ∧ v.HasQuietLog)
      (helloOf declared i key) := by
  have hcode : relaying.functionCode? i = some (.function i) := by
    rw [functionCode?, hi]
    rfl
  refine ⟨i, i, _, 3, ⟨rfl, hcode, hi, rfl, rfl⟩, ?_⟩
  rintro d _ _ v hk ⟨rfl, rfl, hs, hq⟩
  refine ⟨⟨d + 1, [], [], _⟩, .addRight rfl (.super rfl rfl), Nat.le_succ d, fun op _ g hg => ?_⟩
  obtain ⟨g', hg', hdebug⟩ := debug_report hg hq
  exact ⟨_, hdebug, rfl, rfl, hg'.sound, hq⟩

/-- The three methods run from the bottom to the top, past the class that has none. -/
theorem relay_hello :
    relaying.implementations (.declared 3) "__hello" =
      [helloOf 3 2 "_Bottom__hello", helloOf 2 1 "_Right__hello", helloOf 0 0 "_Top__hello"] ∧
    ∃ N, ∀ d ≥ N, ∃ u,
      Relay (.cell 0) (.declared 3) (.noParent "__hello" "app.Bottom") u d
        [helloOf 3 2 "_Bottom__hello", helloOf 2 1 "_Right__hello", helloOf 0 0 "_Top__hello"] [] [] relaying ∧
      callOn (perform d) (helloOf 3 2 "_Bottom__hello") (some (.cell 0)) (.declared 3) [] [] relaying =
        .error (.noParent "__hello" "app.Bottom") u := by
  have hs : relaying.registry.Sound := Registry.sound_empty
  have ha : relaying.isAlive (relaying.classOf (.cell 0)) = true := by decide
  have hn : (relaying.ancestry (relaying.classOf (.cell 0))).Nodup := by decide
  have hu : relaying.Unshared (relaying.classOf (.cell 0)) := by decide
  have hname : relaying.HasProperName (relaying.classOf (.cell 0)) "__hello" :=
    hasProperName_of_isMarked (by decide +kernel)
  have hops : relaying.implementations (relaying.classOf (.cell 0)) "__hello" =
      [helloOf 3 2 "_Bottom__hello", helloOf 2 1 "_Right__hello", helloOf 0 0 "_Top__hello"] := by
    have hlineage : relaying.lineage (relaying.classOf (.cell 0)) = [(.declared 3, "Bottom"),
        (.declared 1, "Left"), (.declared 2, "Right"), (.declared 0, "Top"), (.native .object, "object")] := by
      rfl
    have hbottom : PrivateName.key "Bottom" "__hello" = "_Bottom__hello" := by decide +kernel
    have hleft : PrivateName.key "Left" "__hello" = "_Left__hello" := by decide +kernel
    have hright : PrivateName.key "Right" "__hello" = "_Right__hello" := by decide +kernel
    have htop : PrivateName.key "Top" "__hello" = "_Top__hello" := by decide +kernel
    have hobject : PrivateName.key "object" "__hello" = "_object__hello" := by decide +kernel
    simp only [implementations, hlineage, List.filterMap_cons, hbottom, hleft, hright, htop, hobject]
    rfl
  have hh : relaying.HoldsEntries (relaying.classOf (.cell 0)) := by
    intro a hmem p hp
    have hmem : a ∈ [.declared 3, .declared 1, .declared 2, .declared 0, .native .object] := hmem
    simp only [List.mem_cons, List.not_mem_nil, or_false] at hmem
    rcases hmem with rfl | rfl | rfl | rfl | rfl
    case inr.inl => exact absurd hp List.not_mem_nil
    case inr.inr.inr.inr => exact holdsEntry_native hp
    all_goals
      obtain rfl := List.mem_singleton.mp hp
      exact holdsEntry_routine
  have hall : ∀ op ∈ relaying.implementations (relaying.classOf (.cell 0)) "__hello",
      relaying.HandsOver (.cell 0) "__hello" (relaying.implementations (relaying.classOf (.cell 0)) "__hello")
        (fun args keywords v => args = [] ∧ keywords = [] ∧ v.registry.Sound ∧ v.HasQuietLog) op := by
    rw [hops]
    simp only [List.forall_mem_cons]
    exact ⟨handsOver_hello rfl, handsOver_hello rfl, handsOver_hello rfl, fun _ h => by cases h⟩
  have hq : relaying.HasQuietLog := ⟨0, by decide, by decide⟩
  exact ⟨hops, relay_implementations hs (Nat.zero_lt_one) ha hn hh hu hname hall hops ⟨rfl, rfl, hs, hq⟩⟩

/-- A method with a parent's behind it, and with no code to be found by: it names itself as what it
wraps. -/
def looping : World :=
  { withParent sizeMethod (.value (.routine (.function 1))) with
    functions := #[⟨"size", .super [] [] none false, true, none, false, false⟩,
      ⟨"size", .super [] [] none false, true, none, true, false⟩]
    cells := #[⟨.declared 1, .nothing, [], some []⟩] }

def loopedSize : Operation := ⟨.declared 1, "size", .value (.routine (.function 1)), true⟩

/-- The call of the next implementation does not lead to the parent's. -/
theorem relay_looped :
    looping.Unshared (.declared 1) ∧ looping.HasProperName (.declared 1) "size" ∧
    looping.implementations (.declared 1) "size" = [loopedSize, inheritedSize] ∧
    failed (callOn (perform 40) loopedSize (some (.cell 0)) (.declared 1) [] []) looping =
      some (.notMember "size" "app.Derived") := by
  have hlineage : looping.lineage (.declared 1) =
      [(.declared 1, "Derived"), (.declared 0, "Base"), (.native .object, "object")] := by rfl
  have hderived : PrivateName.key "Derived" "size" = "size" := by decide +kernel
  have hbase : PrivateName.key "Base" "size" = "size" := by decide +kernel
  have hobject : PrivateName.key "object" "size" = "size" := by decide +kernel
  refine ⟨by decide, hasProperName_of_public (by decide +kernel), ?_, by decide +kernel⟩
  simp only [implementations, hlineage, List.filterMap_cons, hderived, hbase, hobject]
  rfl

end Introspect.World
