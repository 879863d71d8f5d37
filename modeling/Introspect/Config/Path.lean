import Introspect.Text.Parts
/-! Paths of files. -/
namespace Introspect.Path

/-- The names on a path, without those that are empty or stay where they are. -/
def parts (path : String) : List String :=
  ((Text.cut '/' path.toList).map String.ofList).filter fun part => part ≠ "" ∧ part ≠ "."

/-- Where a path starts; nothing for a path that starts at the current directory. -/
def root (path : String) : String :=
  match path.toList with
  | '/' :: '/' :: '/' :: _ => "/"
  | '/' :: '/' :: _ => "//"
  | '/' :: _ => "/"
  | _ => ""

/-- Drops empty parts and parts that stay where they are. -/
def normal (path : String) : String :=
  let text := root path ++ "/".intercalate (parts path)
  if text = "" then "." else text

/-- A path below a directory, unless it starts at the root itself. -/
def join (directory path : String) : String :=
  if root path = "" then normal (directory ++ "/" ++ path) else normal path

def isBelow (directory path : String) : Bool := (directory ++ "/").toList.isPrefixOf path.toList

end Introspect.Path
