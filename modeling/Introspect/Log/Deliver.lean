import Introspect.Dispatch.Request
/-!
Delivery of a record: to every handler, in the order of the list as it stands at each step, and then
to the host's logging. A handler that fails does not stop the others.
-/
namespace Introspect.Log

/-- The log of a name, made with the configured level when it is first asked for. -/
def create (name : String) (register : Bool) : Act Nat := do
  if !LogBook.isValidName name then throw (.badLogName name)
  if register && ((← get).log.registered.any (·.1 = name)) then throw (.logExists name)
  let level := (← Act.config (Config.value? "log.level")).getD "info"
  match Level.ofText? level with
  | none => throw (.badLevel level)
  | some level =>
    modifyGet fun w =>
      let (book, id) := w.log.create name level register
      (id, { w with log := book })

def named (name : String) : Act Nat := do
  match (← get).log.registered.lookup name with
  | some id => return id
  | none => create name true

def receive (ask : Ask) (record : LogRecord) : Handler → Act Bool
  | .recorder name => do
    Act.modifyLog (·.receive name record)
    match (← get).log.recorders.find? (·.name = name) with
    | none => return false
    | some r =>
      Act.modifyLog fun b => r.edits.foldl LogBook.edit b
      return r.fails
  | .callable f =>
    tryCatch
      (do
        let argument ← Act.fresh .logRecord .nothing
        let _ ← ask (.call f [argument] [])
        return false)
      fun fault => if fault.isGuarded then return true else throw fault

/-- How a handler is named when it failed. -/
def handlerText (ask : Ask) : Handler → Act String
  | .recorder name => return "<handler " ++ name ++ ">"
  | .callable f => ask.displayOf [] f

/-- Delivers from a position in the list of handlers on. Handlers may edit the list meanwhile, so
that the number of steps has to be limited. -/
def deliver (ask : Ask) (logName : String) (record : LogRecord) : Nat → Nat → Act Unit
  | 0, _ => throw (.host .memoryError "")
  | steps + 1, position => do
    match (← get).log.handlers[position]? with
    | none => return
    | some handler =>
      if ← receive ask record handler then
        let text ← handlerText ask handler
        Act.modifyLog (·.forward ⟨logName, Level.err.weight, "Log handler failed: " ++ text, true⟩)
      deliver ask logName record steps (position + 1)

def write (ask : Ask) (id : Nat) (level : Level) (message : String) (hasCause : Bool) :
    Act Unit := do
  let w ← get
  match w.log.logs[id]? with
  | none => return
  | some log =>
    if LogBook.isEnabled log level then
      deliver ask log.name ⟨level, log.name, message⟩ (w.log.handlers.length + w.nesting + 1) 0
      Act.modifyLog (·.forward ⟨log.name, level.weight, message, hasCause⟩)

def ownName : String := "objmeta"

def debug (ask : Ask) (message : Act String) : Act Unit := do
  let id ← named ownName
  write ask id .debug (← message) false

end Introspect.Log
