import Introspect.Class.Members
import Introspect.Expr
import Introspect.Atom
/-! References, what they refer to, and the namespaces of classes. -/
namespace Introspect

inductive ClassId where
  | native (n : Native)
  | declared (index : Nat)
deriving DecidableEq

/-- What can be called and is no class: four routines that no class holds, the declared functions,
and the operations of native classes. -/
inductive Routine where
  | length | magnitude | zero | one
  | function (index : Nat)
  | native (owner : Native) (name : String)
deriving DecidableEq

/-- A reference. Two references are the same object exactly when they are equal. -/
inductive Ref where
  | atom (a : Atom)
  | emptyTuple
  | cell (address : Nat)
  | cls (c : ClassId)
  | descriptor (id : Nat)
  | weak (id : Nat)
  | routine (r : Routine)
  | entry (c : ClassId) (key : String)
  | ellipsis
  | notImplemented
deriving DecidableEq

/-- What an object holds besides its attributes. Boxes and containers are read from here, also where a
class below theirs declares another way to read them. A class method and a static method are wrappers
where they stand in their class. -/
inductive Body where
  | atom (a : Atom)
  | sequence (items : List Ref)
  | range (start stop step : Int)
  | byteArray (content : List UInt8)
  | mapping (entries : List (Ref × Ref))
  | members (items : List Ref)
  | box (value : Ref) (tainted : Bool)
  | error (message cause : Ref)
  | bound (receiver routine : Ref)
  | partialCall (routine : Ref)
  | routine (r : Routine)
  | methodWrapper
  | cls (c : ClassId)
  | descriptor (id : Nat)
  | stream
  | nothing
deriving DecidableEq

/-- An object: its class, its body, its filled slots by declaring class and name, and its attribute
dictionary if it has one. -/
structure Cell where
  cls : ClassId
  body : Body
  slots : List ((ClassId × String) × Ref)
  attributes : Option (List (String × Ref))
deriving DecidableEq

/-- A declared function. One that wraps another calls it and marks the result; a looped one names
itself as what it wraps, so that its code cannot be found. -/
structure Function where
  name : String
  body : Expr Ref
  takesReceiver : Bool
  wraps : Option Nat
  looped : Bool
  isAbstract : Bool

/-- An entry in the namespace of a class. -/
inductive Entry where
  | native (owner : Native) (member : Member)
  | value (r : Ref)
  | classLevel (r : Ref)
  | static (r : Ref)
  | property (function : Nat)
  | slot (name : String)
deriving DecidableEq

structure ClassInfo where
  name : String
  qualname : String
  modName : Option String
  bases : List ClassId
  ancestry : List ClassId
  slots : Option (List String)
  entries : List (String × Entry)
deriving DecidableEq

namespace Native

/-- Parents one above the other, at most `fuel` of them. -/
def chain : Nat → Native → List Native
  | 0, n => [n]
  | fuel + 1, n => n :: match n.parents with
    | [] => []
    | p :: _ => chain fuel p

def ancestry : Native → List Native
  | .error kind =>
    (if kind = .base then [] else [.error kind]) ++
      [.error .base, .host .exception, .host .baseException, .obj, .object]
  | n => chain 8 n

def slots : Native → Option (List String)
  | .fraction => some ["_numerator", "_denominator"]
  | .numeric | .complexNumeric | .realNumeric | .rational | .taintedStr => some []
  | _ => none

def info (n : Native) : ClassInfo where
  name := n.fullName.2
  qualname := n.fullName.2
  modName := some n.fullName.1
  bases := n.parents.map .native
  ancestry := n.ancestry.map .native
  slots := n.slots
  entries := n.members.map fun (key, member) => (key, .native n member)

end Native

namespace ClassInfo

/-- The name with its module in front, which `builtins` and a missing module leave out. -/
def fullName (info : ClassInfo) : String :=
  match info.modName with
  | some m => if m = "builtins" then info.qualname else m ++ "." ++ info.qualname
  | none => info.qualname

def entryOf? (info : ClassInfo) (key : String) : Option Entry := info.entries.lookup key

end ClassInfo

end Introspect
