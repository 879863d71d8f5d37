import Introspect.World.Ref
/-! Plain data: the values that JSON and YAML can write. -/
namespace Introspect

/-- A text, as a key or a value. It may belong to a class derived from texts, which some writers refuse. -/
structure Data.Text where
  text : String
  cls : ClassId
deriving DecidableEq

inductive Data where
  | null
  | bool (b : Bool)
  | int (i : Int)
  | float (x : Double)
  | text (t : Data.Text)
  | list (items : List Data)
  | dict (entries : List (Data.Text × Data))

namespace Data

def Text.plain (s : String) : Text := ⟨s, .native .str⟩

/-- A later value of a key replaces an earlier one, in the place of the first. -/
def put (key : Text) (value : Data) : List (Text × Data) → List (Text × Data)
  | [] => [(key, value)]
  | (k, v) :: rest =>
    if k.text = key.text then (k, value) :: rest else (k, v) :: put key value rest

def ofEntries (entries : List (Text × Data)) : List (Text × Data) :=
  entries.foldl (fun found (k, v) => put k v found) []

mutual

def display : Data → Except Fault String
  | .null => Atom.none.display
  | .bool b => (Atom.bool b).display
  | .int i => (Atom.int i).display
  | .float x => (Atom.number (.float x)).display
  | .text t => (Atom.text t.text).display
  | .list items => do return "[" ++ ", ".intercalate (← displayItems items) ++ "]"
  | .dict entries => do return "\x7b" ++ ", ".intercalate (← displayEntries entries) ++ "\x7d"

def displayItems : List Data → Except Fault (List String)
  | [] => .ok []
  | d :: rest => do return (← d.display) :: (← displayItems rest)

def displayEntries : List (Text × Data) → Except Fault (List String)
  | [] => .ok []
  | (k, d) :: rest => do
    return (Text.quoted k.text ++ ": " ++ (← d.display)) :: (← displayEntries rest)

end

end Data

end Introspect
