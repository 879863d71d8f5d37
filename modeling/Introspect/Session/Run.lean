import Introspect.Session.Classes
import Introspect.Session.Reflection
import Introspect.Session.Values
import Introspect.Session.Services
/-! Sessions run from beginning to end. -/
namespace Introspect.Session

def perform : Command → Step Report
  | .cls command => performClass command
  | .handle view on command => do performHandle ⟨view, ← on.build⟩ command
  | .type type command => do
    match ← type.resolve with
    | some id => performType id command
    | none => return .null
  | .slot slot command => do
    match ← slot.resolve with
    | some op => performSlot op command
    | none => return .null
  | .bareSlot name flags parent => do
    let parent ← match parent with
      | some type => type.resolve
      | none => pure none
    Report.ofSlot ⟨parent, name, flags⟩ none
  | .value command => performValue command
  | .digest command => performDigest command
  | .config command => performConfig command
  | .log command => performLog command

/-- Descriptors that nothing holds any more are gone from the registry. -/
def swept (s : Session) : Session :=
  { s with world :=
      { s.world with registry := s.world.registry.sweep s.world.isAlive s.holds } }

/-- The answer to a command, and the session after it. A command that fails keeps its effects. -/
def answer (s : Session) (c : Command) : Report × Session :=
  match perform c s with
  | .ok report s => (report, s.swept)
  | .error fault s => (.ofFault fault, s.swept)

def runFrom (s : Session) : List Command → List Report
  | [] => []
  | c :: rest =>
    let (report, s) := answer s c
    report :: runFrom s rest

/-- The answers of a session that starts from nothing. -/
def run (commands : List Command) : List Report := runFrom initial commands

end Introspect.Session
