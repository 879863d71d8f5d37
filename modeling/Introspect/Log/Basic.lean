import Introspect.World.Ref
import Introspect.Text.Alnum
import Introspect.Text.Blank
import Introspect.Text.Case
/-! Logs, their levels, and the handlers that every record goes to. -/
namespace Introspect

inductive Level where
  | debug | info | warn | err | silent
deriving DecidableEq

namespace Level

def all : List Level := [.debug, .info, .warn, .err, .silent]

def name : Level → String
  | .debug => "debug"
  | .info => "info"
  | .warn => "warn"
  | .err => "err"
  | .silent => "silent"

def ordinal : Level → Nat
  | .debug => 0
  | .info => 1
  | .warn => 2
  | .err => 3
  | .silent => 4

/-- The number that the host's logging gives to the level. -/
def weight : Level → Nat
  | .debug => 10
  | .info => 20
  | .warn => 30
  | .err => 40
  | .silent => 60

/-- Reads a name in any case with any blanks around it. -/
def ofText? (s : String) : Option Level :=
  let word := Text.lowerWord (Text.trim s)
  all.find? fun level => level.name = word

end Level

structure LogRecord where
  level : Level
  logName : String
  message : String

namespace LogRecord

def text (r : LogRecord) : String :=
  "[" ++ r.level.name ++ "] [" ++ r.logName ++ "] " ++ r.message

end LogRecord

/-- What a handler does to the list of handlers when it receives a record. -/
inductive HandlerEdit where
  | add (name : String)
  | remove (name : String)
deriving DecidableEq

/-- A handler that keeps what it receives, may edit the list of handlers, and may fail after that. -/
structure Recorder where
  name : String
  fails : Bool
  edits : List HandlerEdit
deriving DecidableEq

/-- A registered handler: a recorder by its name, or any value that can be called. -/
inductive Handler where
  | recorder (name : String)
  | callable (r : Ref)
deriving DecidableEq

/-- What the host's logging receives. -/
structure HostRecord where
  logName : String
  weight : Nat
  message : String
  hasCause : Bool

/-- A log; its identity is its place among all logs that were made. -/
structure Log where
  name : String
  level : Level

structure LogBook where
  logs : Array Log
  registered : List (String × Nat)
  recorders : List Recorder
  handlers : List Handler
  /-- What recorders received and what the host received, the last record first. -/
  received : List (String × String)
  forwarded : List HostRecord

namespace LogBook

def empty : LogBook := ⟨#[], [], [], [], [], []⟩

/-- Names are made of letters, digits, dots and underscores. -/
def isValidName (name : String) : Bool :=
  name ≠ "" && name.toList.all fun c => Text.isAlnum c || c = '.' || c = '_'

def create (name : String) (level : Level) (register : Bool) (b : LogBook) : LogBook × Nat :=
  let id := b.logs.size
  ({ b with
      logs := b.logs.push ⟨name, level⟩
      registered := if register then b.registered ++ [(name, id)] else b.registered }, id)

def setLevel (id : Nat) (level : Level) (b : LogBook) : LogBook :=
  { b with logs := b.logs.modify id fun log => { log with level } }

def isEnabled (log : Log) (level : Level) : Bool := log.level.ordinal ≤ level.ordinal

/-- The recorder of a name is made on first use. -/
def addRecorder (r : Recorder) (b : LogBook) : LogBook :=
  { b with
    recorders := if b.recorders.any (·.name = r.name) then b.recorders else b.recorders ++ [r]
    handlers := b.handlers ++ [.recorder r.name] }

def addCallable (r : Ref) (b : LogBook) : LogBook :=
  { b with handlers := b.handlers ++ [.callable r] }

def removeHandler (h : Handler) (b : LogBook) : LogBook :=
  { b with handlers := b.handlers.erase h }

def removeAt (place : Nat) (b : LogBook) : LogBook :=
  { b with handlers := b.handlers.eraseIdx place }

def edit (b : LogBook) : HandlerEdit → LogBook
  | .add name => { b with handlers := b.handlers ++ [.recorder name] }
  | .remove name => b.removeHandler (.recorder name)

def receive (name : String) (record : LogRecord) (b : LogBook) : LogBook :=
  { b with received := (name, record.text) :: b.received }

def forward (record : HostRecord) (b : LogBook) : LogBook :=
  { b with forwarded := record :: b.forwarded }

def drained (b : LogBook) : LogBook := { b with received := [], forwarded := [] }

end LogBook

end Introspect
