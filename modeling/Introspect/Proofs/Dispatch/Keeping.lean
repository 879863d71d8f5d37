import Introspect.Dispatch.Perform
import Introspect.Proofs.World.Keeping
/-!
Requests change no classes and no functions. One handler after the other keeps the world if what it asks
for does, and so does every request under every limit of nesting.
-/
namespace Introspect

open Dispatch World

/-- The means to ask for more keeps every world. -/
abbrev Ask.Keeping (ask : Ask) : Prop := ∀ request, Introspect.Keeping (ask request)

namespace Keeping

variable {ask : Ask} [ask.Keeping]

/-! ## Asking -/

instance content (r : Ref) : Keeping (Ask.content r) := by
  unfold Ask.content
  refine .andThen fun w => ?_
  split <;> infer_instance

instance textOf (r : Ref) : Keeping (ask.textOf r) := by
  unfold Ask.textOf
  infer_instance

instance displayOf (active : List Ref) (r : Ref) : Keeping (ask.displayOf active r) := by
  unfold Ask.displayOf
  infer_instance

instance isTrue (r : Ref) : Keeping (ask.isTrue r) := by
  unfold Ask.isTrue
  refine .andThen fun x => ?_
  split <;> infer_instance

instance areEqual (a b : Ref) : Keeping (ask.areEqual a b) := by
  unfold Ask.areEqual
  infer_instance

instance attribute? (r : Ref) (name : String) : Keeping (ask.attribute? r name) := by
  unfold Ask.attribute?
  refine @Keeping.tryCatch _ _ _ inferInstance fun fault => ?_
  split <;> infer_instance

/-! ## Attributes -/

instance bound (receiver routine : Ref) : Keeping (Dispatch.bound receiver routine) := by
  unfold Dispatch.bound
  infer_instance

instance nativeData (r : Ref) (cls : ClassId) (key : String) : Keeping (nativeData r cls key) := by
  unfold Dispatch.nativeData
  refine .andThen fun w => ?_
  split <;> infer_instance

instance bindEntry (receiver : Option Ref) (cls holder : ClassId) (key : String) (e : Entry) :
    Keeping (bindEntry ask receiver cls holder key e) := by
  unfold Dispatch.bindEntry
  split
  case h_5 =>
    split
    · refine .andThen fun w => ?_
      split <;> infer_instance
    · infer_instance
  all_goals first | infer_instance | split <;> infer_instance

instance classAttribute (c : ClassId) (name : String) : Keeping (classAttribute ask c name) := by
  unfold Dispatch.classAttribute
  refine .andThen fun w => ?_
  split
  · rename_i data hdata
    unfold classData? at hdata
    split at hdata
    case h_3 =>
      cases hdata
      unfold Option.elim
      split <;> infer_instance
    all_goals cases hdata
    all_goals infer_instance
  · split
    · infer_instance
    · split <;> infer_instance

instance instanceAttribute (r : Ref) (name : String) : Keeping (instanceAttribute ask r name) := by
  unfold Dispatch.instanceAttribute
  refine .andThen fun w => ?_
  dsimp only
  split
  case h_4 => split <;> infer_instance
  all_goals infer_instance

instance attributeOf (r : Ref) (name : String) : Keeping (attributeOf ask r name) := by
  unfold Dispatch.attributeOf
  split <;> infer_instance

instance callHook (r : Ref) (name : String) (found : ClassId × Entry) (args : List Ref) :
    Keeping (callHook ask r name found args) := by
  unfold Dispatch.callHook
  infer_instance

/-! ## Conversions -/

instance expectInteger (r : Ref) : Keeping (expectInteger r) := by
  unfold Dispatch.expectInteger
  refine .andThen fun w => ?_
  split <;> infer_instance

instance indexOr (r : Ref) (content : Act Ref) [Keeping content] : Keeping (indexOr ask r content) := by
  unfold Dispatch.indexOr
  refine .andThen fun w => ?_
  split <;> infer_instance

instance integerOf (a : Atom) : Keeping (integerOf a) := by
  unfold Dispatch.integerOf
  infer_instance

instance integer (r : Ref) : Keeping (integer ask r) := by
  unfold Dispatch.integer
  refine .andThen fun w => ?_
  split
  · infer_instance
  · split <;> infer_instance

instance newDouble (x : Double) : Keeping (newDouble x) := Keeping.atom _

instance realOf (a : Atom) : Keeping (realOf a) := by
  unfold Dispatch.realOf
  infer_instance

instance realIndexOr (r : Ref) (content : Act Ref) [Keeping content] :
    Keeping (realIndexOr ask r content) := by
  unfold Dispatch.realIndexOr
  refine .andThen fun w => ?_
  split
  · refine .andThen fun x => .andThen fun i => .andThen fun w => ?_
    split <;> infer_instance
  · infer_instance

instance real (r : Ref) : Keeping (real ask r) := by
  unfold Dispatch.real
  refine .andThen fun w => ?_
  split
  · refine .andThen fun x => .andThen fun w => ?_
    split <;> infer_instance
  · split <;> infer_instance

instance lengthOr (r : Ref) (content : Bool) : Keeping (lengthOr ask r content) := by
  unfold Dispatch.lengthOr
  refine .andThen fun w => ?_
  split
  · refine .andThen fun x => .andThen fun i => .andThen fun w => ?_
    split <;> infer_instance
  · infer_instance

instance truth (r : Ref) : Keeping (truth ask r) := by
  unfold Dispatch.truth
  refine .andThen fun w => ?_
  split
  · refine .andThen fun x => ?_
    split <;> infer_instance
  · split <;> infer_instance

/-! ## Equality -/

instance allEqual (pairs : List (Ref × Ref)) : Keeping (allEqual ask pairs) := by
  induction pairs with
  | nil => exact .pure _
  | cons p rest ih =>
      unfold Dispatch.allEqual
      infer_instance

instance entriesEqual (others entries : List (Ref × Ref)) : Keeping (entriesEqual ask others entries) := by
  induction entries with
  | nil => exact .pure _
  | cons p rest ih =>
      unfold Dispatch.entriesEqual
      refine .andThen fun w => ?_
      split <;> infer_instance

instance decided (b : Bool) : Keeping (decided b) := .pure _

instance atomEqual (a b : Atom) : Keeping (atomEqual a b) := by
  unfold Dispatch.atomEqual
  infer_instance

instance bodyEqual (a b : Ref) : Keeping (bodyEqual ask a b) := by
  unfold Dispatch.bodyEqual
  refine .andThen fun w => ?_
  split <;> infer_instance

instance askClass (a b : Ref) : Keeping (askClass ask a b) := by
  unfold Dispatch.askClass
  refine .andThen fun w => ?_
  split
  · infer_instance
  · split <;> infer_instance

instance equal (a b : Ref) : Keeping (equal ask a b) := by
  unfold Dispatch.equal
  refine .andThen fun w => .andThen fun x => ?_
  split
  · refine .andThen fun y => ?_
    split <;> infer_instance
  · infer_instance

/-! ## Texts -/

instance displayAll (active items : List Ref) : Keeping (displayAll ask active items) := by
  unfold Dispatch.displayAll
  infer_instance

instance displayEntries (active : List Ref) (asPairs : Bool) (entries : List (Ref × Ref)) :
    Keeping (displayEntries ask active asPairs entries) := by
  unfold Dispatch.displayEntries
  infer_instance

instance displaySequence (active : List Ref) (n : Native) (r : Ref) (items : List Ref) :
    Keeping (displaySequence ask active n r items) := by
  unfold Dispatch.displaySequence
  refine .andThen fun w => .andThen fun v => ?_
  split
  · split
    · infer_instance
    · refine .andThen fun parts => ?_
      split <;> infer_instance
  · infer_instance
  · infer_instance

instance displayMapping (active : List Ref) (n : Native) (r : Ref) (entries : List (Ref × Ref)) :
    Keeping (displayMapping ask active n r entries) := by
  unfold Dispatch.displayMapping
  refine .andThen fun w => .andThen fun v => ?_
  split
  · infer_instance
  · dsimp only
    split
    all_goals
      refine .andThen fun inner => ?_
      split <;> infer_instance

instance displayMembers (active : List Ref) (n : Native) (r : Ref) (items : List Ref) :
    Keeping (displayMembers ask active n r items) := by
  unfold Dispatch.displayMembers
  infer_instance

instance displayBody (active : List Ref) (n : Native) (r : Ref) : Keeping (displayBody ask active n r) := by
  unfold Dispatch.displayBody
  refine .andThen fun w => ?_
  split
  case h_11 => split <;> infer_instance
  all_goals infer_instance

instance textFrom (r : Ref) (method : String) : Keeping (textFrom ask r method) := by
  unfold Dispatch.textFrom
  infer_instance

instance display (active : List Ref) (r : Ref) : Keeping (display ask active r) := by
  unfold Dispatch.display
  refine .andThen fun w => ?_
  split
  · infer_instance
  · refine .andThen fun v => ?_
    split <;> infer_instance

instance boxText (r : Ref) : Keeping (boxText ask r) := by
  unfold Dispatch.boxText Dispatch.taintedText
  refine .andThen fun w => ?_
  split <;> infer_instance

instance nativeText (n : Native) (r : Ref) : Keeping (nativeText ask n r) := by
  unfold Dispatch.nativeText
  refine .andThen fun w => ?_
  split <;> infer_instance

instance textRequest (r : Ref) : Keeping (Dispatch.text ask r) := by
  unfold Dispatch.text
  refine .andThen fun w => ?_
  split <;> infer_instance

/-! ## Logs and descriptors -/

instance create (name : String) (register : Bool) : Keeping (Log.create name register) := by
  have hmake (level : Level) : Keeping (modifyGet fun w : World =>
      ((w.log.create name level register).2, { w with log := (w.log.create name level register).1 })) :=
    ⟨fun w => .single (.record w w.config _)⟩
  unfold Log.create
  dsimp only
  refine @Keeping.ite _ _ _ _ _ inferInstance (.andThen fun w => ?_)
  refine @Keeping.ite _ _ _ _ _ inferInstance (.andThen fun level => ?_)
  split
  · infer_instance
  · exact hmake _

instance named (name : String) : Keeping (Log.named name) := by
  unfold Log.named
  refine .andThen fun w => ?_
  split <;> infer_instance

instance receive (record : LogRecord) (h : Handler) : Keeping (Log.receive ask record h) := by
  unfold Log.receive
  split
  · refine .andThen fun _ => .andThen fun w => ?_
    split <;> infer_instance
  · infer_instance

instance handlerText (h : Handler) : Keeping (Log.handlerText ask h) := by
  unfold Log.handlerText
  split <;> infer_instance

instance deliver (logName : String) (record : LogRecord) (steps position : Nat) :
    Keeping (Log.deliver ask logName record steps position) := by
  induction steps generalizing position with
  | zero => exact .throw _
  | succ steps ih =>
      unfold Log.deliver
      refine .andThen fun w => ?_
      split <;> infer_instance

instance write (id : Nat) (level : Level) (message : String) (hasCause : Bool) :
    Keeping (Log.write ask id level message hasCause) := by
  unfold Log.write
  refine .andThen fun w => ?_
  split <;> infer_instance

instance debug (message : Act String) [Keeping message] : Keeping (Log.debug ask message) := by
  unfold Log.debug
  infer_instance

instance ofClass (c : ClassId) : Keeping (Registry.ofClass c) :=
  ⟨fun w => .single (.register w c)⟩

instance of (r : Ref) : Keeping (Registry.of r) := by
  unfold Registry.of
  infer_instance

instance descriptor (id : Nat) : Keeping (Registry.descriptor id) := by
  unfold Registry.descriptor
  refine .andThen fun w => ?_
  split <;> infer_instance

instance qname (id : Nat) : Keeping (Registry.qname id) := by
  unfold Registry.qname
  infer_instance

instance qnameOf (r : Ref) : Keeping (Registry.qnameOf r) := by
  unfold Registry.qnameOf
  infer_instance

instance class? (id : Nat) : Keeping (Registry.class? id) := by
  unfold Registry.class?
  infer_instance

instance liveClass (id : Nat) : Keeping (Registry.liveClass id) := by
  unfold Registry.liveClass
  refine .andThen fun c => ?_
  split <;> infer_instance

instance ancestry (id : Nat) : Keeping (Registry.ancestry id) := by
  unfold Registry.ancestry
  infer_instance

instance follow (names : List String) (r : Option Ref) : Keeping (Registry.follow ask names r) := by
  induction names generalizing r with
  | nil => exact .pure r
  | cons name rest ih =>
      unfold Registry.follow
      split <;> infer_instance

instance followIn (moduleName : String) (names : List String) :
    Keeping (Registry.followIn ask moduleName names) := by
  unfold Registry.followIn
  split <;> infer_instance

instance followWithin (parts : List String) (count : Nat) :
    Keeping (Registry.followWithin ask parts count) := by
  induction count with
  | zero => exact .pure _
  | succ count ih =>
      unfold Registry.followWithin
      infer_instance

instance locate (qname : String) : Keeping (Registry.locate ask qname) := by
  unfold Registry.locate
  split <;> infer_instance

instance resolve (qname : String) : Keeping (Registry.resolve ask qname) := by
  unfold Registry.resolve
  infer_instance

instance recordFound (qname : String) : Keeping (Registry.recordFound ask qname) := by
  unfold Registry.recordFound
  infer_instance

instance find? (qname : String) : Keeping (Registry.find? ask qname) := by
  unfold Registry.find?
  refine .andThen fun w => ?_
  split
  · infer_instance
  · refine .andThen fun c => ?_
    split <;> infer_instance

instance find (qname : String) : Keeping (Registry.find ask qname) := by
  unfold Registry.find
  refine .andThen fun id => ?_
  split <;> infer_instance

/-! ## Calls -/

instance callFunction (i : Nat) (args : List Ref) (keywords : List (String × Ref)) :
    Keeping (callFunction ask i args keywords) := by
  unfold Dispatch.callFunction
  refine .andThen fun w => ?_
  split
  · infer_instance
  · split
    · infer_instance
    · split
      · split <;> infer_instance
      · infer_instance

instance mappingOf (r : Ref) : Keeping (mappingOf r) := by
  unfold Dispatch.mappingOf
  refine .andThen fun w => ?_
  split <;> infer_instance

instance checkKey (r : Ref) : Keeping (Act.checkKey r) := by
  unfold Act.checkKey
  infer_instance

instance mappingGet (r key fallback : Ref) : Keeping (mappingGet r key fallback) := by
  unfold Dispatch.mappingGet
  infer_instance

/-- What cannot be called may hold anything else that cannot be. -/
theorem evolves_setBody {w : World} {address : Nat} {body : Body}
    (hold : (w.body (.cell address)).isRoutine = false) (hnew : body.isRoutine = false) :
    w.Evolves (World.after (Act.modifyCell address ({ · with body })) w) := by
  refine .single (.edit w address _ fun x hx => ⟨rfl, .inr ⟨?_, hnew⟩⟩)
  simpa only [World.body, hx, Option.elim_some] using hold

theorem run_mappingOf {w : World} {r : Ref} :
    Dispatch.mappingOf r w = match w.body r with
      | .mapping entries => .ok entries w
      | _ => .error .typeError w := by
  rw [Dispatch.mappingOf, run_get]
  cases w.body r <;> rfl

instance mappingPop (r key : Ref) (fallback : Option Ref) : Keeping (mappingPop r key fallback) := by
  unfold Dispatch.mappingPop
  refine .andThen fun _ => ⟨fun w => ?_⟩
  cases hb : w.body r with
  | mapping entries =>
      have hread : Dispatch.mappingOf r w = .ok entries w := by rw [run_mappingOf, hb]
      rw [World.after, run_bind_ok hread, run_get]
      cases w.findKey? key entries with
      | none => cases fallback <;> exact .refl
      | some found =>
          cases r with
          | cell address => exact evolves_setBody (by rw [hb]; rfl) rfl
          | _ => exact .refl
  | _ =>
      have hread : Dispatch.mappingOf r w = .error .typeError w := by rw [run_mappingOf, hb]
      rw [World.after, run_bind_error hread]

instance countEqual (x : Ref) (items : List Ref) : Keeping (countEqual ask x items) := by
  induction items with
  | nil => exact .pure _
  | cons y rest ih =>
      unfold Dispatch.countEqual
      infer_instance

instance sequenceCount (r x : Ref) : Keeping (sequenceCount ask r x) := by
  unfold Dispatch.sequenceCount
  refine .andThen fun w => ?_
  split <;> infer_instance

instance boxValue (r : Ref) : Keeping (boxValue r) := by
  unfold Dispatch.boxValue
  refine .andThen fun w => ?_
  split <;> infer_instance

instance setBox (r value : Ref) : Keeping (setBox r value) := by
  refine ⟨fun w => ?_⟩
  cases r with
  | cell address =>
      rw [World.after, Dispatch.setBox, run_get]
      cases hb : w.body (.cell address) with
      | box old tainted => exact evolves_setBody (by rw [hb]; rfl) rfl
      | _ => exact .refl
  | _ => exact .refl

instance ownText (r : Ref) : Keeping (ownText ask r) := by
  unfold Dispatch.ownText
  refine .andThen fun w => ?_
  split <;> infer_instance

instance errorMessage (r : Ref) : Keeping (errorMessage r) := by
  unfold Dispatch.errorMessage
  refine .andThen fun w => ?_
  split <;> infer_instance

instance errorCause (r : Ref) : Keeping (errorCause r) := by
  unfold Dispatch.errorCause
  refine .andThen fun w => ?_
  split <;> infer_instance

instance newBox (value : Ref) : Keeping (newBox value) := by
  unfold Dispatch.newBox
  infer_instance

instance numberOperand (r : Ref) : Keeping (numberOperand r) := by
  unfold Dispatch.numberOperand
  refine .andThen fun w => ?_
  split <;> infer_instance

instance textUpper (r : Ref) : Keeping (textUpper r) := by
  unfold Dispatch.textUpper
  infer_instance

instance describedClass (r : Ref) : Keeping (describedClass r) := by
  unfold Dispatch.describedClass
  split <;> infer_instance

instance handlerObject (h : Handler) : Keeping (handlerObject h) := by
  unfold Dispatch.handlerObject
  split <;> infer_instance

instance placeOfHandler (r : Ref) (handlers : List Handler) : Keeping (placeOfHandler ask r handlers) := by
  induction handlers with
  | nil => exact .pure _
  | cons h rest ih =>
      unfold Dispatch.placeOfHandler
      infer_instance

instance addHandler (r : Ref) : Keeping (addHandler r) := by
  unfold Dispatch.addHandler
  infer_instance

instance removeHandler (r : Ref) : Keeping (removeHandler ask r) := by
  unfold Dispatch.removeHandler
  refine .andThen fun w => .andThen fun place => ?_
  split <;> infer_instance

instance callContent (owner : Native) (name : String) (args : List Ref) :
    Keeping (callContent ask owner name args) := by
  unfold Dispatch.callContent
  split <;> infer_instance

instance callMapping (owner : Native) (name : String) (args : List Ref) :
    Keeping (callMapping ask owner name args) := by
  unfold Dispatch.callMapping
  split <;> infer_instance

instance callBox (name : String) (args : List Ref) : Keeping (callBox ask name args) := by
  unfold Dispatch.callBox
  split <;> infer_instance

instance callRoot (name : String) (args : List Ref) : Keeping (callRoot ask name args) := by
  unfold Dispatch.callRoot
  split <;> infer_instance

instance callObject (name : String) (args : List Ref) : Keeping (callObject ask name args) := by
  unfold Dispatch.callObject
  split <;> infer_instance

instance callError (kind : ErrorKind) (name : String) (args : List Ref) :
    Keeping (callError ask kind name args) := by
  unfold Dispatch.callError
  split <;> infer_instance

instance callNative (owner : Native) (name : String) (args : List Ref) :
    Keeping (callNative ask owner name args) := by
  unfold Dispatch.callNative
  split
  all_goals first | infer_instance | split <;> infer_instance

instance callRoutine (r : Routine) (args : List Ref) (keywords : List (String × Ref)) :
    Keeping (callRoutine ask r args keywords) := by
  unfold Dispatch.callRoutine
  split
  case h_6 | h_7 =>
    refine .andThen fun w => ?_
    split <;> infer_instance
  all_goals infer_instance

instance instantiate (c : ClassId) (body : Body) : Keeping (Act.instantiate c body) := by
  unfold Act.instantiate
  infer_instance

instance constructNative (n : Native) (args : List Ref) : Keeping (constructNative ask n args) := by
  unfold Dispatch.constructNative
  split <;> infer_instance

instance newContent (content : Option Native) (hasInit : Bool) (args : List Ref)
    (keywords : List (String × Ref)) : Keeping (newContent ask content hasInit args keywords) := by
  unfold Dispatch.newContent Dispatch.bodyOf
  split <;> infer_instance

instance construct (c : ClassId) (args : List Ref) (keywords : List (String × Ref)) :
    Keeping (construct ask c args keywords) := by
  unfold Dispatch.construct
  split
  · infer_instance
  · refine .andThen fun w => .andThen fun body => .andThen fun r => ?_
    split <;> infer_instance

instance call (f : Ref) (args : List Ref) (keywords : List (String × Ref)) :
    Keeping (call ask f args keywords) := by
  unfold Dispatch.call
  refine .andThen fun w => ?_
  split
  case h_5 => split <;> infer_instance
  all_goals infer_instance

/-! ## Evaluation -/

instance sum (a b : Ref) : Keeping (sum a b) := by
  unfold Dispatch.sum
  refine .andThen fun w => ?_
  split
  case h_4 => split <;> infer_instance
  all_goals infer_instance

instance argument (args : List Ref) (index : Int) : Keeping (argument args index) := by
  unfold Dispatch.argument
  dsimp only
  split <;> infer_instance

instance evalAll (frame : Frame) (es : List (Expr Ref)) : Keeping (evalAll ask frame es) := by
  unfold Dispatch.evalAll
  infer_instance

instance callOn (op : Operation) (receiver : Option Ref) (cls : ClassId) (args : List Ref)
    (keywords : List (String × Ref)) : Keeping (callOn ask op receiver cls args keywords) := by
  unfold Dispatch.callOn
  infer_instance

instance viewType (view : View) (r : Ref) : Keeping (viewType ask view r) := by
  unfold Dispatch.viewType
  split
  · infer_instance
  · refine .andThen fun w => ?_
    split <;> infer_instance

instance superTarget (view : View) (subject : Ref) (type : Nat) :
    Keeping (superTarget view subject type) := by
  unfold Dispatch.superTarget
  split <;> infer_instance

instance callParent (code : Option Routine) (codeName : String) (view : View) (subject : Ref)
    (args : List Ref) (keywords : List (String × Ref)) :
    Keeping (callParent ask code codeName view subject args keywords) := by
  unfold Dispatch.callParent
  refine .andThen fun type => .andThen fun ids => .andThen fun ancestry => .andThen fun qname =>
    .andThen fun w => ?_
  split
  · infer_instance
  · split
    · infer_instance
    · refine .andThen fun _ => .andThen fun target => ?_
      infer_instance

instance eval (frame : Frame) (e : Expr Ref) : Keeping (eval ask frame e) := by
  unfold Dispatch.eval
  split
  case h_4 => split <;> infer_instance
  case h_12 =>
    refine .andThen fun r => .andThen fun w => ?_
    split <;> infer_instance
  case h_18 =>
    dsimp only
    split <;> infer_instance
  all_goals infer_instance

instance handle (request : Request) : Keeping (handle ask request) := by
  unfold Dispatch.handle
  split <;> infer_instance

/-- Whatever a request runs, it changes no classes, no functions, and the class of no object. -/
instance perform (depth : Nat) (request : Request) : Keeping (perform depth request) := by
  induction depth generalizing request with
  | zero => exact .throw _
  | succ depth ih => exact Keeping.handle request

end Keeping

end Introspect
