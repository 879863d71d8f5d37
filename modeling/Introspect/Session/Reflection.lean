import Introspect.Session.Build
import Introspect.Session.Command
import Introspect.Session.Report
import Introspect.Handle
/-! Questions about handles, types and slots. -/
namespace Introspect.Session

open Dispatch

def buildKeywords (keywords : List (String × Literal)) : Step (List (String × Ref)) :=
  buildAttributes keywords

/-! ## Handles -/

/-- The name that code outside of all classes goes by. -/
def outsideName : String := "outside"

def qnames (ids : List Nat) : Act Report := do return .texts (← ids.mapM Registry.qname)

def performHandle (h : Handle) : HandleCommand → Step Report
  | .className => do Report.ofValue (← h.className)
  | .type => do Report.ofType (← h.type)
  | .refType => do
    return .ofOption (((← get).world.refType? h.subject).map fun kind => .text kind.name)
  | .parents => do qnames (← Registry.parents (← h.type))
  | .ancestry => do return .texts (← h.ancestry)
  | .isTainted => do return .bool (← Taint.isTainted h.subject)
  | .taint => do
    Taint.taint h.subject
    return .null
  | .untaint => do
    Taint.untaint h.subject
    return .null
  | .text => do return .text (Report.hidden (← h.text))
  | .symbols => do return .texts (← Registry.symbols (← h.type))
  | .assignSymbol => do
    let _ ← Registry.symbols (← h.type)
    throw .typeError
  | .isA other => do
    let other ← other.build
    return .bool (← h.isA other)
  | .isEqual other => do return .bool (← Equality.isEqual h.subject (← other.build))
  | .can name => do
    match ← Registry.operation? (← h.type) name with
    | some op => Report.ofOperation op
    | none => return .null
  | .methods withRoot justMine => do
    return .texts ((← Registry.operations (← h.type) withRoot justMine).map (·.name))
  | .checksum algorithm format => do
    let algorithm ← algorithm.build
    Report.ofValue (← h.checksum algorithm (← format.build))
  | .dump format => do return .text (← h.dump (← format.build))
  | .super args => do
    let args ← buildItems args
    Report.ofValue (← callParent ask none outsideName h.view h.subject args [])
  | .isSubject other | .hasIdentity other => do return .bool (h.subject = (← other.build))
  | .equals view other => do return .bool (h = ⟨view, ← other.build⟩)

/-! ## Types -/

def performType (id : Nat) : TypeCommand → Step Report
  | .itself => Report.ofType id
  | .name => do return .text (← Registry.descriptor id).name
  | .qname => do return .text (← Registry.qname id)
  | .isRoot => do return .bool (← Registry.isRoot id)
  | .parents => do Report.ofTypes (← Registry.parents id)
  | .ancestry => do Report.ofTypes (← Registry.ancestry id)
  | .convertsToText => do return .bool (← Registry.overloads id).text
  | .convertsToNumber => do return .bool (← Registry.overloads id).number
  | .typeOf => do Report.ofType (← Registry.of (.descriptor id))
  | .cls => do
    match ← Registry.class? id with
    | some c => Report.ofValue (.cls c)
    | none => return .null
  | .overloads => do return .texts (← Registry.overloads id).names
  | .declared => do
    let ops := (← Registry.declared id).mergeSort fun a b => a.name ≤ b.name
    let pairs ← ops.mapM fun op => do return .list [.text op.name, ← Report.ofOperation op]
    return .list pairs
  | .symbols => do return .texts (← Registry.symbols id)
  | .methods withRoot justMine => do
    Report.ofOperations (← Registry.operations id withRoot justMine)
  | .method name true => do Report.ofOperation (← Registry.operation id name)
  | .method name false => do
    match ← Registry.operation? id name with
    | some op => Report.ofOperation op
    | none => return .null
  | .fits other => do return .bool (← Registry.fits ask id (← other.build))
  | .same other => do return .bool (some id = (← other.resolve))

/-! ## Slots -/

def SlotTerm.resolve : SlotTerm → Step (Option Operation)
  | .named qname true => do return some (← Registry.findOperation ask qname)
  | .named qname false => Registry.findOperation? ask qname
  | .ofType type name checked => do
    match ← type.resolve, checked with
    | none, _ => return none
    | some id, true => return some (← Registry.operation id name)
    | some id, false => Registry.operation? id name

def ownerClass (r : Ref) : Act ClassId := do
  match r with
  | .cls c => return c
  | r => return (← get).classOf r

def performSlot (op : Operation) : SlotCommand → Step Report
  | .itself => do
    let hasCode := ((← get).world.entryCode? op.name op.entry).isSome
    Report.ofSlot (← Slot.ofOperation op) (some hasCode)
  | .raw => return .bool true
  | .call args => do Report.ofValue (← callPlainly ask op (← buildItems args))
  | .callOn receiver owner args keywords => do
    let receiver ← receiver.build
    let owner ← ownerClass (← owner.build)
    let args ← buildItems args
    let keywords ← buildKeywords keywords
    Report.ofValue (← callOn ask op (receiver? receiver) owner args keywords)

end Introspect.Session
