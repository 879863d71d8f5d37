import Introspect.Session.Build
import Introspect.Session.Command
import Introspect.Session.Report
import Introspect.Declaration.Edit
/-! Classes of a session: declared, changed, bound and dropped. -/
namespace Introspect.Session

def newFunction (f : Function) : Act Nat :=
  modifyGet fun w => (w.functions.size, { w with functions := w.functions.push f })

def functionRef (i : Nat) : Ref := .routine (.function i)

/-- The entry of a routine that binds in the given way. -/
def routineEntry (r : Ref) : Binding → Entry
  | .receiver => .value r
  | .owner => .classLevel r
  | .nothing => .static r

/-- An entry of a class as another class takes it over under any key. -/
def borrowed? (w : World) (c : ClassId) (key : String) : Option Entry :=
  ((w.info c).entryOf? key).map fun
    | .native n (.operation binding _ _) => routineEntry (.routine (.native n key)) binding
    | e => e

def entryOr (e : Option Entry) : Act Entry :=
  match e with
  | some e => return e
  | none => throw (.host .keyError "")

/-- Makes an entry for a key, after the entries that are there already. -/
def buildEntry (found : List (String × Entry)) (key : String) : EntryTerm → Step Entry
  | .function body binding isAbstract wraps looped codeName => do
    let name := codeName.getD key
    let body ← body.traverse Literal.build
    let takesReceiver := binding ≠ .nothing
    let i ← newFunction ⟨name, body, takesReceiver, none, looped, isAbstract⟩
    if wraps then
      let outer ← newFunction ⟨name, .notImplemented, takesReceiver, some i, looped, isAbstract⟩
      return routineEntry (functionRef outer) binding
    return routineEntry (functionRef i) binding
  | .value e => do return .value (← e.build)
  | .alias key => entryOr (found.lookup key)
  | .borrowed id key => do entryOr (borrowed? (← get).world (← Act.classNamed id) key)
  | .property body => do
    let body ← body.traverse Literal.build
    return .property (← newFunction ⟨key, body, true, none, false, false⟩)
  | .nested id => do return .value (.cls (← Act.classNamed id))

def buildEntries (found : List (String × Entry)) :
    List (String × EntryTerm) → Step (List (String × Entry))
  | [] => return found
  | (key, term) :: rest => do
    let e ← buildEntry found key term
    buildEntries (Pairs.put key e found) rest

/-- Tells the ancestors of a new class about it. -/
def announce (c : ClassId) : Act Unit := do
  let w ← get
  match w.entryAmong? "__init_subclass__" (w.ancestry c).tail with
  | some (_, .native ..) | none => return
  | some (holder, e) =>
    let hook ← Dispatch.bindEntry Dispatch.ask none c holder "__init_subclass__" e
    let _ ← Dispatch.ask (.call hook [] [])

/-- A class that its ancestors refuse is forgotten. -/
def introduce (c : ClassId) : Act Unit :=
  tryCatch (announce c) fun fault => do
    modify (World.forget c)
    throw fault

/-- The module that a class is bound in. -/
def moduleOf? (term : ClassTerm) : Option String :=
  if term.isLocal || term.modName = some "builtins" then none else term.modName

def declare (term : ClassTerm) : Step Unit := do
  let entries ← buildEntries [] term.entries
  let bases ← term.bases.mapM fun id => Act.classNamed id
  let c ← Act.declare
    ⟨term.name, term.qualname, term.modName, bases, term.slots, entries⟩
  introduce c
  act (modify fun w => { w with ids := Pairs.put term.id c w.ids })
  match moduleOf? term with
  | some moduleName => Act.bindClass Dispatch.ask moduleName term.qualname c
  | none => return

/-- The declared classes that nothing at hand leads to. -/
def strays (s : Session) : List ClassId :=
  ((List.range s.world.classes.size).map .declared).filter fun c => !s.reaches (.cls c)

/-- Unbinds a class everywhere. The classes that nothing leads to any more end. -/
def drop (c : ClassId) : Step Unit := do
  act (modify (World.unbindClass c))
  modify fun s => { s with world := { s.world with dropped := s.strays ++ s.world.dropped } }

def performClass : ClassCommand → Step Report
  | .declare term => do
    declare term
    return .null
  | .assign id key term => do
    let c ← Act.classNamed id
    let e ← buildEntry ((← get).world.info c).entries key term
    Act.assignEntry c key e
    return .null
  | .erase id key => do
    Act.eraseEntry (← Act.classNamed id) key
    return .null
  | .bind moduleName name e => do
    let r ← e.build
    act (modify (World.bind moduleName name r))
    return .null
  | .drop id => do
    match ← Act.classNamed id with
    | .native _ => throw (.host .keyError "")
    | .declared i => do
      drop (.declared i)
      return .null
  | .hold name type => do
    let id ← type.resolve
    modify fun s => { s with held := Pairs.put name id s.held }
    return .null
  | .release name => do
    let _ ← known (← get).held name
    modify fun s => { s with held := Pairs.erase name s.held }
    return .null

end Introspect.Session
