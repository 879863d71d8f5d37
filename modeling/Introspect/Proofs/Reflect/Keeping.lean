import Introspect.Handle
import Introspect.Proofs.Dispatch.Keeping
import Introspect.Session.Report
import Introspect.Trace
/-!
Questions change no classes and no functions: what a program asks about types, what it compares, converts, writes
and traces, and what is reported of it, takes steps of a program alone.
-/
namespace Introspect

open Dispatch World

variable {α β : Type}

namespace Keeping

instance ask (request : Request) : Keeping (Dispatch.ask request) := by
  unfold Dispatch.ask
  infer_instance

variable {ask : Ask} [ask.Keeping]

/-! ## Types -/

instance parents (id : Nat) : Keeping (Registry.parents id) := by
  unfold Registry.parents
  infer_instance

instance isRoot (id : Nat) : Keeping (Registry.isRoot id) := by
  unfold Registry.isRoot
  infer_instance

instance declared (id : Nat) : Keeping (Registry.declared id) := by
  unfold Registry.declared
  infer_instance

instance operations (id : Nat) (withRoot justMine : Bool) : Keeping (Registry.operations id withRoot justMine) := by
  unfold Registry.operations
  split
  · refine .andThen fun isRoot => ?_
    split <;> infer_instance
  · infer_instance

instance operation? (id : Nat) (name : String) : Keeping (Registry.operation? id name) := by
  unfold Registry.operation?
  infer_instance

instance operation (id : Nat) (name : String) : Keeping (Registry.operation id name) := by
  unfold Registry.operation
  refine .andThen fun op => ?_
  split <;> infer_instance

instance parent (op : Operation) : Keeping (Registry.parent op) := by
  unfold Registry.parent
  infer_instance

instance operationName (op : Operation) : Keeping (Registry.operationName op) := by
  unfold Registry.operationName
  infer_instance

instance symbols (id : Nat) : Keeping (Registry.symbols id) := by
  unfold Registry.symbols
  infer_instance

instance typeOverloads (id : Nat) : Keeping (Registry.overloads id) := by
  unfold Registry.overloads
  infer_instance

instance findOperation (qname : String) : Keeping (Registry.findOperation ask qname) := by
  unfold Registry.findOperation
  split <;> infer_instance

instance findOperation? (qname : String) : Keeping (Registry.findOperation? ask qname) := by
  unfold Registry.findOperation?
  split
  · infer_instance
  · refine .andThen fun id => ?_
    split <;> infer_instance

instance fitsName (id : Nat) (name : String) : Keeping (Registry.fitsName ask id name) := by
  unfold Registry.fitsName
  refine .andThen fun that => ?_
  split <;> infer_instance

instance fits (id : Nat) (other : Ref) : Keeping (Registry.fits ask id other) := by
  unfold Registry.fits
  refine .andThen fun w => ?_
  split <;> infer_instance

instance callPlainly (op : Operation) (args : List Ref) : Keeping (callPlainly ask op args) := by
  unfold Dispatch.callPlainly
  split
  case h_4 => split <;> infer_instance
  all_goals infer_instance

instance slotName (s : Slot) : Keeping s.qname := by
  unfold Slot.qname
  split <;> infer_instance

instance slotOf (op : Operation) : Keeping (Slot.ofOperation op) := by
  unfold Slot.ofOperation
  infer_instance

/-! ## Fields, conversions and taint -/

instance slotFields (r : Ref) (names : List String) : Keeping (slotFields r names) := by
  induction names with
  | nil => exact .pure _
  | cons name rest ih =>
      unfold Introspect.slotFields
      refine .andThen fun value => ?_
      split <;> infer_instance

instance fields (r : Ref) : Keeping (fields r) := by
  unfold Introspect.fields
  infer_instance

instance overloads (r : Ref) : Keeping (Conversion.overloads r) := by
  unfold Conversion.overloads
  infer_instance

instance isOverloaded (r : Ref) : Keeping (Conversion.isOverloaded r) := by
  unfold Conversion.isOverloaded
  infer_instance

instance callNumberHook (r : Ref) (c : ClassId) (hooks : List String) :
    Keeping (Conversion.callNumberHook r c hooks) := by
  induction hooks with
  | nil => exact .pure _
  | cons hook rest ih =>
      unfold Conversion.callNumberHook
      refine .andThen fun f => ?_
      split <;> infer_instance

instance conversion (r : Ref) : Keeping (Conversion.value r) := by
  unfold Conversion.value
  infer_instance

instance comparisonText (r : Ref) : Keeping (Conversion.comparisonText r) := by
  unfold Conversion.comparisonText
  refine .andThen fun w => ?_
  split <;> infer_instance

instance plainEqual (a b : Ref) : Keeping (Conversion.plainEqual a b) := by
  unfold Conversion.plainEqual
  refine .andThen fun w => ?_
  split
  · refine .andThen fun comparison => ?_
    split <;> infer_instance
  all_goals infer_instance

instance isTaintedWithin (depth : Nat) (r : Ref) : Keeping (Taint.isTaintedWithin depth r) := by
  induction depth generalizing r with
  | zero => exact .throw _
  | succ depth ih =>
      unfold Taint.isTaintedWithin
      refine .andThen fun w => ?_
      split <;> infer_instance

instance isTainted (r : Ref) : Keeping (Taint.isTainted r) := by
  unfold Taint.isTainted
  infer_instance

end Keeping

/-! ## Equality -/

/-- A comparison that keeps every world, whatever it has seen. -/
class Equality.Visit.Keeping (m : Equality.Visit α) : Prop where
  run : ∀ seen, Introspect.Keeping (m.run seen)

namespace Equality.Visit.Keeping

instance pure (a : α) : Keeping (Pure.pure a : Visit α) := ⟨fun _ => .pure _⟩

instance lift (m : Act α) [h : Introspect.Keeping m] : Keeping (liftM m : Visit α) :=
  ⟨fun seen => by
    change Introspect.Keeping (m >>= fun a => Pure.pure (a, seen))
    infer_instance⟩

instance getWorld : Keeping (getThe World : Visit World) :=
  ⟨fun seen => by
    change Introspect.Keeping ((get : Act World) >>= fun w => Pure.pure (w, seen))
    infer_instance⟩

instance getSeen : Keeping (get : Visit Seen) := ⟨fun _ => .pure _⟩

instance modify (f : Seen → Seen) : Keeping (modify f : Visit Unit) := ⟨fun _ => .pure _⟩

instance bind {m : Visit α} {f : α → Visit β} [hm : Keeping m] [hf : ∀ a, Keeping (f a)] : Keeping (m >>= f) :=
  ⟨fun seen => @Introspect.Keeping.bind _ _ _ _ (hm.run seen) fun (a, seen) => (hf a).run seen⟩

theorem andThen {m : Visit α} {f : α → Visit β} [Keeping m] (hf : ∀ a, Keeping (f a)) : Keeping (m >>= f) :=
  Keeping.bind

instance ite {m m' : Visit α} {p : Prop} [Decidable p] [Keeping m] [Keeping m'] :
    Keeping (if p then m else m') := by split <;> infer_instance

instance overloadsEquality (r : Ref) : Introspect.Keeping (overloadsEquality r) := by
  unfold Equality.overloadsEquality
  infer_instance

instance eitherOverloads (a b : Ref) : Introspect.Keeping (eitherOverloads a b) := by
  unfold Equality.eitherOverloads
  infer_instance

instance isConverted (r : Ref) : Introspect.Keeping (isConverted r) := by
  unfold Equality.isConverted
  infer_instance

instance converted (isPlain : Bool) (r : Ref) : Introspect.Keeping (converted isPlain r) := by
  unfold Equality.converted
  infer_instance

section Children

variable {recur : Ref → Ref → Visit Bool} [∀ a b, Keeping (recur a b)]

instance sequences (xs ys : List Ref) : Keeping (sequences recur xs ys) := by
  fun_induction Equality.sequences recur xs ys <;> infer_instance

instance mappings (others entries : List (Ref × Ref)) : Keeping (mappings recur others entries) := by
  induction entries with
  | nil => exact .pure _
  | cons entry rest ih =>
      unfold Equality.mappings
      refine .andThen fun w => ?_
      split <;> infer_instance

instance fieldMaps (others pairs : List (String × Ref)) : Keeping (fieldMaps recur others pairs) := by
  induction pairs with
  | nil => exact .pure _
  | cons pair rest ih =>
      unfold Equality.fieldMaps
      split <;> infer_instance

instance without? (x : Ref) (ys : List Ref) : Keeping (without? recur x ys) := by
  induction ys with
  | nil => exact .pure _
  | cons y rest ih =>
      unfold Equality.without?
      infer_instance

instance sets (xs ys : List Ref) : Keeping (sets recur xs ys) := by
  induction xs generalizing ys with
  | nil => exact .pure _
  | cons x rest ih =>
      unfold Equality.sets
      refine .andThen fun remaining => ?_
      split <;> infer_instance

instance objects (a b : Ref) : Keeping (objects recur a b) := by
  unfold Equality.objects
  infer_instance

instance contents (kind : RefType) (a b : Ref) : Keeping (contents recur kind a b) := by
  unfold Equality.contents
  refine .andThen fun w => ?_
  split
  case h_4 => split <;> infer_instance
  all_goals infer_instance

instance references (a b : Ref) : Keeping (references recur a b) := by
  unfold Equality.references
  refine .andThen fun w => ?_
  split <;> infer_instance

instance compare (a b : Ref) : Keeping (compare recur a b) := by
  unfold Equality.compare
  split
  · infer_instance
  · refine .andThen fun w => ?_
    dsimp only
    infer_instance

end Children

instance within (depth : Nat) (a b : Ref) : Keeping (within depth a b) := by
  induction depth generalizing a b with
  | zero => exact ⟨fun _ => .throw _⟩
  | succ depth ih =>
      unfold Equality.within
      infer_instance

end Equality.Visit.Keeping

namespace Keeping

instance isEqual (a b : Ref) : Keeping (Equality.isEqual a b) := by
  unfold Equality.isEqual
  refine .andThen fun w => @Keeping.bind _ _ _ _ ?_ inferInstance
  exact Equality.Visit.Keeping.run []

/-! ## Perl terms -/

instance atomTerm (r : Ref) (a : Atom) : Keeping (Perl.atomTerm r a) := by
  unfold Perl.atomTerm
  split <;> infer_instance

section Children

variable {recur : Perl.Active → Perl.Path → Ref → Act Perl.Term} [∀ active p r, Keeping (recur active p r)]

instance keyLiteral (k : Ref) : Keeping (Perl.keyLiteral recur k) := by
  unfold Perl.keyLiteral Perl.compact
  refine .andThen fun w => ?_
  split <;> infer_instance

instance itemTerms (active : Perl.Active) (p : Perl.Path) (index : Nat) (items : List Ref) :
    Keeping (Perl.itemTerms recur active p index items) := by
  induction items generalizing index with
  | nil => exact .pure _
  | cons r rest ih =>
      unfold Perl.itemTerms
      infer_instance

instance entryTerms (active : Perl.Active) (p : Perl.Path) (pairs : List (List Char × Ref)) :
    Keeping (Perl.entryTerms recur active p pairs) := by
  induction pairs with
  | nil => exact .pure _
  | cons pair rest ih =>
      unfold Perl.entryTerms
      infer_instance

instance contentTerm (active : Perl.Active) (p : Perl.Path) (r : Ref) :
    Keeping (Perl.contentTerm recur active p r) := by
  unfold Perl.contentTerm Perl.membersTerm Perl.hashTerm Perl.arrayTerm Perl.compact
  refine .andThen fun w => ?_
  split
  case h_3 => split <;> infer_instance
  all_goals infer_instance

instance referenceTerm (active : Perl.Active) (p : Perl.Path) (r : Ref) :
    Keeping (Perl.referenceTerm recur active p r) := by
  unfold Perl.referenceTerm
  infer_instance

instance term (active : Perl.Active) (p : Perl.Path) (r : Ref) : Keeping (Perl.term recur active p r) := by
  unfold Perl.term
  refine .andThen fun w => ?_
  split
  case h_7 => split <;> infer_instance
  all_goals infer_instance

end Children

instance termWithin (depth : Nat) (active : Perl.Active) (p : Perl.Path) (r : Ref) :
    Keeping (Perl.termWithin depth active p r) := by
  induction depth generalizing active p r with
  | zero => exact .throw _
  | succ depth ih =>
      unfold Perl.termWithin
      infer_instance

instance perl (r : Ref) (indent : Int) : Keeping (Perl.encode r indent) := by
  unfold Perl.encode
  infer_instance

/-! ## Plain data -/

instance doubleOf (r : Ref) : Keeping (Lower.doubleOf r) := by
  unfold Lower.doubleOf
  refine .andThen fun x => .andThen fun w => ?_
  split <;> infer_instance

instance intOf (r : Ref) : Keeping (Lower.intOf r) := by
  unfold Lower.intOf
  refine .andThen fun x => .andThen fun w => ?_
  split <;> infer_instance

instance converted (r : Ref) : Keeping (Lower.converted r) := by
  unfold Lower.converted
  infer_instance

instance atomData (r : Ref) (a : Atom) : Keeping (Lower.atomData r a) := by
  unfold Lower.atomData
  split <;> infer_instance

instance dataKey (k : Ref) : Keeping (Lower.key k) := by
  unfold Lower.key
  refine .andThen fun w => ?_
  split <;> infer_instance

section Children

variable {recur : List Ref → Ref → Act Data} [∀ active r, Keeping (recur active r)]

instance dataEntries (active : List Ref) (entries : List (Ref × Ref)) :
    Keeping (Lower.entries recur active entries) := by
  induction entries with
  | nil => exact .pure _
  | cons entry rest ih =>
      unfold Lower.entries
      infer_instance

instance dataItems (active items : List Ref) : Keeping (Lower.items recur active items) := by
  induction items with
  | nil => exact .pure _
  | cons r rest ih =>
      unfold Lower.items
      infer_instance

instance publicFields (active : List Ref) (pairs : List (String × Ref)) :
    Keeping (Lower.publicFields recur active pairs) := by
  induction pairs with
  | nil => exact .pure _
  | cons pair rest ih =>
      unfold Lower.publicFields
      infer_instance

instance dataContent (active : List Ref) (r : Ref) : Keeping (Lower.content recur active r) := by
  unfold Lower.content
  refine .andThen fun w => ?_
  split
  case h_3 => split <;> infer_instance
  all_goals infer_instance

instance dataReference (active : List Ref) (r : Ref) : Keeping (Lower.reference recur active r) := by
  unfold Lower.reference
  refine .andThen fun hook => ?_
  split <;> infer_instance

instance lower (active : List Ref) (r : Ref) : Keeping (Lower.lower recur active r) := by
  unfold Lower.lower
  refine .andThen fun w => ?_
  split <;> infer_instance

end Children

instance lowerWithin (depth : Nat) (active : List Ref) (r : Ref) : Keeping (Lower.within depth active r) := by
  induction depth generalizing active r with
  | zero => exact .throw _
  | succ depth ih =>
      unfold Lower.within
      infer_instance

instance data (r : Ref) : Keeping (Lower.encode r) := by
  unfold Lower.encode
  infer_instance

instance jsonText (indent : Option Int) (r : Ref) : Keeping (Handle.jsonText indent r) := by
  unfold Handle.jsonText
  infer_instance

instance yamlText (r : Ref) : Keeping (Handle.yamlText r) := by
  unfold Handle.yamlText Handle.yamlTextBy
  infer_instance

/-! ## Handles -/

section Handles

variable (h : Handle)

instance type : Keeping h.type := by
  unfold Handle.type
  infer_instance

instance typeName : Keeping h.typeName := by
  unfold Handle.typeName
  infer_instance

instance className : Keeping h.className := by
  unfold Handle.className
  refine .andThen fun w => ?_
  split <;> infer_instance

instance handleText : Keeping h.text := by
  unfold Handle.text
  infer_instance

instance handleAncestry : Keeping h.ancestry := by
  unfold Handle.ancestry
  infer_instance

instance isA (other : Ref) : Keeping (h.isA other) := by
  unfold Handle.isA
  infer_instance

instance optionValue (given : Ref) (key fallback : String) : Keeping (Handle.optionValue given key fallback) := by
  unfold Handle.optionValue
  split <;> infer_instance

instance digestedText : Keeping h.digestedText := by
  unfold Handle.digestedText
  infer_instance

instance checksum (algorithm format : Ref) : Keeping (h.checksum algorithm format) := by
  unfold Handle.checksum
  infer_instance

instance dumpIndent : Keeping Handle.dumpIndent := by
  unfold Handle.dumpIndent
  refine .andThen fun value => ?_
  dsimp only
  split <;> infer_instance

instance dumpAs (format : String) : Keeping (h.dumpAs format) := by
  unfold Handle.dumpAs
  split <;> infer_instance

instance dump (format : Ref) : Keeping (h.dump format) := by
  unfold Handle.dump
  infer_instance

end Handles

/-! ## Errors -/

instance callMethod (r : Ref) (name : String) : Keeping (Trace.callMethod r name) := by
  unfold Trace.callMethod
  infer_instance

instance traceWithin (depth : Nat) (r : Ref) : Keeping (Trace.textWithin depth r) := by
  induction depth generalizing r with
  | zero => exact .throw _
  | succ depth ih =>
      unfold Trace.textWithin
      refine .andThen fun method => .andThen fun text => .andThen fun w => ?_
      split <;> infer_instance

instance trace (r : Ref) : Keeping (Trace.text r) := by
  unfold Trace.text
  infer_instance

/-! ## Reports -/

open Session

instance ofValue (r : Ref) : Keeping (Report.ofValue r) := by
  unfold Report.ofValue
  infer_instance

instance ofType (id : Nat) : Keeping (Report.ofType id) := by
  unfold Report.ofType
  infer_instance

instance ofTypes (ids : List Nat) : Keeping (Report.ofTypes ids) := by
  unfold Report.ofTypes
  infer_instance

instance ofOperation (op : Operation) : Keeping (Report.ofOperation op) := by
  unfold Report.ofOperation
  infer_instance

instance ofOperations (ops : List Operation) : Keeping (Report.ofOperations ops) := by
  unfold Report.ofOperations
  infer_instance

instance ofSlot (s : Slot) (hasCode : Option Bool) : Keeping (Report.ofSlot s hasCode) := by
  unfold Report.ofSlot
  refine .andThen fun qname => ?_
  split <;> infer_instance

end Keeping

end Introspect
