import Introspect.Session.Build
import Introspect.Session.Command
import Introspect.Session.Report
import Introspect.Dispatch.Items
import Introspect.Handle
import Introspect.Trace
/-! Values of a session: kept, changed, inspected, converted and written. -/
namespace Introspect.Session

open Dispatch

def performMutation (r : Ref) : Mutation → Step Unit
  | .setItem key value => do
    let key ← key.build
    Dispatch.setItem ask r key (← value.build)
  | .deleteItem key => do Dispatch.deleteItem ask r (← key.build)
  | .append value => do Dispatch.append ask r (← value.build)
  | .add value => do Dispatch.add ask r (← value.build)
  | .setAttribute name value => do Dispatch.assignAttribute ask r name (← value.build)

/-! ## Inspection -/

def fieldsReport (r : Ref) : Act Report := do
  let pairs ← (← fields r).mapM fun (name, value) => do
    return Report.list [.text name, ← Report.ofValue value]
  return .tagged "dict" (.list pairs)

def inspect : Inspection → List Ref → Act Report
  | .refType, [r] => do return .ofOption (((← get).refType? r).map fun kind => .text kind.name)
  | .isPlain, [r] => do return .bool ((← get).isPlain r)
  | .fields, [r] => fieldsReport r
  | .isOverloaded, [r] => do return .bool (← Conversion.isOverloaded r)
  | .overloadedValue, [r] => do Report.ofValue (← Conversion.value r)
  | .looksNumeric, [r] => do return .bool (((← get).atom? r).any Atom.looksNumeric)
  | .scalarsEqual, [a, b] => do return .bool (← Conversion.plainEqual a b)
  | .isEqual, [a, b] => do return .bool (← Equality.isEqual a b)
  | .slotNames, [.cls c] => do return .texts ((← get).slotNames c)
  | .slotNames, [_] => throw .attributeError
  | _, _ => throw .typeError

/-! ## Boxes and conversions -/

def performBox (r : Ref) : BoxCommand → Step Report
  | .value => do Report.ofValue (← Trace.callMethod r "val")
  | .text => do Report.ofValue (← Trace.callMethod r "toStr")
  | .make => do Report.ofValue (← newBox r)
  | .convertText => do Report.ofValue (← ask (.text r))
  | .convertInteger => do Report.ofValue (← ask (.integer r))
  | .convertReal => do Report.ofValue (← ask (.real r))
  | .convertTruth => do Report.ofValue (← ask (.truth r))
  | .assign value => do
    let value ← value.build
    let answer ← ask (.call (← ask (.attribute r "set")) [value] [])
    if answer = r then return .bool true else Report.ofValue answer

def encode (r : Ref) : Encoding → Act Report
  | .perl indent => do return .text (← Perl.encode r indent)
  | .json indent => do return .text (← Handle.jsonText indent r)
  | .plain => do
    let d ← Lower.encode r
    return .ofData (← get) d
  | .yaml => do return .text (← Handle.yamlText r)

/-! ## Errors -/

/-- What an error says of itself, and whether it equals itself and another one made alike. -/
def errorReport (r other : Ref) : Act Report := do
  let text ← ask.textOf r
  let own ← ask.textOf (← Trace.callMethod r "toStr")
  let message ← Report.ofValue (← Trace.callMethod r "msg")
  let cause ← Report.ofValue (← Trace.callMethod r "cause")
  let trace ← Trace.text r
  let type ← Registry.qnameOf r
  let w ← get
  let kinds := (ErrorKind.all.filter fun kind => w.isInstance r (.error kind)).map (·.name)
  let selfEqual ← ask.isTrue (← ask (.equal r r))
  let otherEqual ← ask.isTrue (← ask (.equal r other))
  return .object [("str", .text text), ("toStr", .text own), ("msg", message), ("cause", cause),
    ("trace", .text trace), ("typeof", .text type), ("kind", .text (w.info (w.classOf r)).name),
    ("is", .list ((kinds.mergeSort fun a b => a ≤ b).map .text)), ("selfEq", .bool selfEqual),
    ("otherEq", .bool otherEqual)]

def performValue : ValueCommand → Step Report
  | .assign name value => do
    let r ← value.build
    modify fun s => { s with values := Pairs.put name r s.values }
    return .null
  | .identical a b => do
    let a ← a.build
    return .bool (a = (← b.build))
  | .invoke on name args keywords => do
    let r ← on.build
    let args ← buildItems args
    let keywords ← buildAttributes keywords
    Report.ofValue (← ask (.call (← ask (.attribute r name)) args keywords))
  | .mutate on mutation => do
    performMutation (← on.build) mutation
    return .null
  | .inspect inspection args => do inspect inspection (← buildItems args)
  | .box on command => do performBox (← on.build) command
  | .encode on encoding => do encode (← on.build) encoding
  | .error term => do
    let r ← term.build
    errorReport r (← term.build)

end Introspect.Session
