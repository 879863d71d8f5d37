import Introspect.Session.Build
import Introspect.Session.Command
import Introspect.Session.Report
import Introspect.Handle
/-! Digests, configuration and logs of a session. -/
namespace Introspect.Session

open Dispatch

/-! ## Digests -/

/-- What can be fed to a digest; texts are fed as UTF-8. -/
def bytesOf (r : Ref) : Act (List UInt8) := do
  match (← get).body r with
  | .atom (.text s) => return Text.Utf8.encode s
  | .atom (.bytes b) | .byteArray b => return b
  | _ => throw .typeError

def setDigest (name : String) (d : Digest) : Step Unit :=
  modify fun s => { s with digests := Pairs.put name d s.digests }

/-- The digest of data in one step. What is wrong with the format shows first, then what is wrong
with the algorithm. -/
def checksum (data algorithm format : Ref) : Act Atom := do
  let format ← Act.liftExcept (Digest.formatOf (← ask.textOf format))
  let algorithm ← Act.liftExcept (Digest.algorithmOf (← ask.textOf algorithm))
  return Digest.checksum (← bytesOf data) algorithm format

def performDigest : DigestCommand → Step Report
  | .checksum data algorithm format => do
    let data ← data.build
    let algorithm ← algorithm.build
    let a ← checksum data algorithm (← format.build)
    Report.ofValue (.atom a)
  | .new name algorithm => do
    let algorithm ← ask.textOf (← algorithm.build)
    setDigest name (.ofAlgorithm (← Act.liftExcept (Digest.algorithmOf algorithm)))
    return .null
  | .update name data => do
    let d ← known (← get).digests name
    setDigest name (d.update (← bytesOf (← data.build)))
    return .bool true
  | .format name format => do
    let d ← known (← get).digests name
    let format ← ask.textOf (← format.build)
    let (a, d) ← Act.liftExcept (d.format format)
    setDigest name d
    Report.ofValue (.atom a)
  | .digest name => do
    let (bytes, d) := (← known (← get).digests name).digest
    setDigest name d
    return .ofBytes bytes
  | .algorithm name => do return .text (← known (← get).digests name).algorithm.name
  | .size name => do return .int (← known (← get).digests name).algorithm.size

/-! ## Configuration -/

def propsReport (props : Props) : Report :=
  .tagged "dict" (.list (props.map fun (key, value) => .list [.text key, .text value]))

def ownVariables (c : Config) : Props :=
  (c.environment.filter fun (name, _) => name.startsWith Config.variableStart).mergeSort
    fun a b => a.1 ≤ b.1

def modifyConfig (f : Config → Config) : Step Unit := act (Act.config (modify f))

def pathIn (name path : String) : String := Path.join (directory name) path

def performConfig : ConfigCommand → Step Report
  | .setVariable name value => do
    modifyConfig (Config.setVariable name value)
    return .null
  | .unsetVariable name => do
    modifyConfig (Config.unsetVariable name)
    return .null
  | .home (some name) => do
    modifyConfig (Config.setVariable Config.homeVariable (directory name))
    return .null
  | .home none => do
    modifyConfig fun c =>
      { c.unsetVariable Config.homeVariable with directory := directory "cwd" }
    return .null
  | .write name path content modified => do
    modifyConfig (Config.write (pathIn name path) ⟨content, modified⟩)
    return .null
  | .remove name path => do
    modifyConfig (Config.remove (pathIn name path))
    return .null
  | .value key fallback => do
    let fallback ← fallback.build
    match ← Act.config (Config.value? key) with
    | some value => return .text value
    | none => Report.ofValue fallback
  | .props path => do return propsReport (← Act.config (Config.props path))
  | .parse text source => do
    return propsReport (← Act.liftExcept (Props.parse text source))
  | .reload => do
    modifyConfig Config.reload
    return .bool true
  | .workDir => do return .text (← get).world.config.workDir
  | .environment => do return propsReport (ownVariables (← get).world.config)
  | .assignVariable => throw .typeError
  | .isSingle => return .bool true
  | .text => return .text (Native.env.fullName.2 ++ identity)

/-! ## Logs -/

def logId (name : String) : Step Nat := do known (← get).logs name

def logOf (name : String) : Step Log := do
  match (← get).world.log.logs[← logId name]? with
  | some log => return log
  | none => throw (.host .keyError "")

def nameLog (as : String) (id : Nat) : Step Unit :=
  modify fun s => { s with logs := Pairs.put as id s.logs }

/-- The name of a log. Any other empty value is refused as a name; the rest are no names at all. -/
def logName (r : Ref) : Act String := do
  match (← get).atom? r with
  | some (.text s) => return s
  | _ => if ← ask.isTrue r then throw .typeError else throw (.badLogName (← ask.textOf r))

def levelNamed (name : String) : Act Level :=
  match Level.ofText? name with
  | some level => return level
  | none => throw (.badLevel name)

def levelFields (level : Level) : List Report :=
  [.text level.name, .int level.ordinal, .int level.weight]

/-- What arrived at recorders and at the host since the last time, in the order of arrival. -/
def drainReport (b : LogBook) : Report :=
  let received := b.received.reverse.map fun (name, text) =>
    .list [.text name, .text (Report.hidden text)]
  let forwarded := b.forwarded.reverse.map fun record =>
    .list [.text record.logName, .int record.weight, .text (Report.hidden record.message),
      .bool record.hasCause]
  .object [("received", .list received), ("forwarded", .list forwarded)]

def performLog : LogCommand → Step Report
  | .new name register as => do
    let name ← logName (← name.build)
    nameLog as (← Log.create name register)
    return .null
  | .named name as => do
    let name ← logName (← name.build)
    nameLog as (← Log.named name)
    return .null
  | .same a b => do
    let a ← logId a
    return .bool (a = (← logId b))
  | .addRecorder name fails => do
    Act.modifyLog (·.addRecorder ⟨name, fails, []⟩)
    return .null
  | .removeRecorder name => do
    Act.modifyLog (·.removeHandler (.recorder name))
    return .null
  | .addHandler handler => do
    let _ ← Dispatch.addHandler (← handler.build)
    return .null
  | .handlers => do
    let names ← (← get).world.log.handlers.mapM fun handler => Log.handlerText ask handler
    return .texts names
  | .level on => do return .text (← logOf on).level.name
  | .setLevel on level => do
    let id ← logId on
    let level ← levelNamed level
    Act.modifyLog (·.setLevel id level)
    return .null
  | .isEnabled on level => do
    let log ← logOf on
    return .bool (LogBook.isEnabled log (← levelNamed level))
  | .name on => do
    let log ← logOf on
    return .list [.text log.name, .text log.name]
  | .write on level message cause => do
    let id ← logId on
    match cause with
    | none => Log.write ask id level message false
    | some e =>
      let _ ← e.build
      Log.write ask id level message true
    return .null
  | .ofText value checked => do
    let text ← ask.textOf (← value.build)
    match Level.ofText? text with
    | some level => return .list (levelFields level ++ [.text level.name])
    | none => if checked then throw (.badLevel text) else return .null
  | .levels => return .list (Level.all.map fun level => .list (levelFields level))
  | .record level name message => do
    let record : LogRecord := ⟨← levelNamed level, name, message⟩
    return .list [.text record.level.name, .text name, .text message, .text record.text,
      .text record.text]
  | .drain => do
    let b := (← get).world.log
    Act.modifyLog LogBook.drained
    return drainReport b

end Introspect.Session
