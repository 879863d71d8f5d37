import Introspect.Registry.Find
import Introspect.Reflect.Parent
import Introspect.Dispatch.Attribute
/-! Operations bound as dispatch would bind them, and calls of the next implementation. -/
namespace Introspect.Dispatch

/-- Calls an operation bound to a receiver or, without one, to a class. -/
def callOn (ask : Ask) (op : Operation) (receiver : Option Ref) (cls : ClassId) (args : List Ref)
    (keywords : List (String × Ref)) : Act Ref := do
  let f ← bindEntry ask receiver cls op.owner op.name op.entry
  ask (.call f args keywords)

/-- Calls an operation without binding it: the first argument is the receiver if it takes one. -/
def callPlainly (ask : Ask) (op : Operation) (args : List Ref) : Act Ref := do
  match op.entry with
  | .classLevel _ => callOn ask op none op.owner args []
  | .static f | .value f => ask (.call f args [])
  | .native owner _ =>
    match World.binding op.entry with
    | .owner => callOn ask op none op.owner args []
    | _ => ask (.call (.routine (.native owner op.name)) args [])
  | .property _ | .slot _ => throw .typeError

/-- Whether a subject is looked at as data or as a type. -/
inductive View where
  | asData | asType
deriving DecidableEq

/-- The type that a view reflects on. As a type, a class is itself, a text names one, and anything
else stands for its class. -/
def viewType (ask : Ask) : View → Ref → Act Nat
  | .asData, r => Registry.of r
  | .asType, r => do
    match r, (← get).atom? r with
    | .cls c, _ => Registry.ofClass c
    | _, some (.text name) => Registry.find ask name
    | _, _ => Registry.of r

/-- What an operation of the next class is bound to. -/
def superTarget (view : View) (subject : Ref) (type : Nat) : Act (Option Ref × ClassId) := do
  match view with
  | .asData => return (receiver? subject, (← get).classOf subject)
  | .asType => return (none, ← Registry.liveClass type)

/-- Calls the implementation that follows the running code along the ancestry of the subject. Code
that no class of the ancestry declares, or that none follows, cannot be followed. -/
def callParent (ask : Ask) (code : Option Routine) (codeName : String) (view : View)
    (subject : Ref) (args : List Ref) (keywords : List (String × Ref)) : Act Ref := do
  let type ← viewType ask view subject
  let ids ← Registry.ancestry type
  let ancestry ← ids.mapM fun id => do
    let d ← Registry.descriptor id
    return (d.cls, d.name)
  let qname ← Registry.qname type
  let w ← get
  match code.bind (w.caller? · ancestry) with
  | none => throw (.notMember codeName qname)
  | some (name, rest) =>
    match w.parent? name rest with
    | none => throw (.noParent name qname)
    | some op =>
      Log.debug ask do
        let holder ← Registry.qname (← Registry.ofClass op.owner)
        return "super " ++ qname ++ "." ++ name ++ " -> " ++ holder ++ "." ++ op.name
      let (receiver, cls) ← superTarget view subject type
      callOn ask op receiver cls args keywords

end Introspect.Dispatch
