import Introspect.Session.Literal
import Introspect.World.Holding
import Introspect.Digest.Basic
/-! Sessions: a world with the values, digests, logs and types that were given names in it. -/
namespace Introspect

structure Session where
  world : World
  values : List (String × Ref)
  digests : List (String × Digest)
  logs : List (String × Nat)
  /-- Types that are kept when their classes go. -/
  held : List (String × Option Nat)

namespace Session

def root : String := "<TMP>"

def directory (name : String) : String := root ++ "/" ++ name

def initialConfig : Config where
  environment := [(Config.homeVariable, directory "home")]
  directory := directory "cwd"
  files := []
  cache := []

def nestingLimit : Nat := 1000

def initialWorld : World where
  classes := #[]
  functions := #[]
  cells := #[]
  dropped := []
  registry := .empty
  config := initialConfig
  log := .empty
  modules := []
  ids := []
  nesting := nestingLimit

def initial : Session := ⟨initialWorld, [], [], [], []⟩

/-- A step of a session that may fail; what it did before stays. -/
abbrev Step := EStateM Fault Session

def act {α : Type} (x : Act α) : Step α := fun s =>
  match x s.world with
  | .ok a w => .ok a { s with world := w }
  | .error fault w => .error fault { s with world := w }

instance : MonadLift Act Step := ⟨act⟩

/-- What a name stands for; a name that stands for nothing fails like a missing key. -/
def known {α : Type} (pairs : List (String × α)) (name : String) : Step α :=
  match pairs.lookup name with
  | some a => return a
  | none => throw (.host .keyError "")

/-! ## What is held -/

/-- The references that are at hand. -/
def roots (s : Session) : List Ref :=
  s.values.map (·.2) ++ s.held.filterMap (fun (_, id) => id.map .descriptor) ++
    s.world.ids.map (fun (_, c) => .cls c) ++ s.world.modules.flatMap (fun (_, bound) => bound.map (·.2)) ++
      s.world.log.handlers.filterMap fun
        | .callable r => some r
        | .recorder _ => none

/-- Whether anything at hand leads to a reference. -/
def reaches (s : Session) (r : Ref) : Bool := (s.world.reach s.roots).contains r

/-- Whether somebody holds a descriptor. -/
def holds (s : Session) (id : Nat) : Bool := s.reaches (.descriptor id)

end Session

end Introspect
