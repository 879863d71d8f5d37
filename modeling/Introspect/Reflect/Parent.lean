import Introspect.Reflect.Operation
/-!
The next implementation of a running operation: the class that declares the running code is found
along the ancestry, and the search goes on behind it. Private names are kept apart by the name of
the class that declares them.
-/
namespace Introspect

namespace PrivateName

/-- What a private name starts with inside a class. -/
def opening (className : String) : String :=
  "_" ++ String.ofList (className.toList.dropWhile (· = '_')) ++ "__"

def isMarked (name : String) : Bool := name.startsWith "__" && !name.endsWith "__"

/-- The private name behind a namespace key of a class. A class whose name is all underscores has
none. -/
def plain (className key : String) : String :=
  let opening := opening className
  if key.startsWith opening && !key.endsWith "__" && opening ≠ "___" then
    "__" ++ String.ofList (key.toList.drop opening.length)
  else key

/-- The namespace key of a name inside a class. -/
def key (className name : String) : String :=
  if isMarked name && opening className ≠ "___" then
    opening className ++ String.ofList (name.toList.drop 2)
  else name

end PrivateName

namespace World

/-- The ancestry of a type: classes with the names that their descriptors give them. -/
abbrev Ancestry := List (ClassId × String)

/-- The name of the operation with the given code, and the classes behind the first one that
declares it. -/
def caller? (w : World) (code : Routine) : Ancestry → Option (String × Ancestry)
  | [] => none
  | (c, name) :: rest =>
    match (w.declared c).find? fun op => w.entryCode? op.name op.entry = some code with
    | some op => some (PrivateName.plain name op.name, rest)
    | none => caller? w code rest

/-- The first operation of the name, written as each class writes it. -/
def parent? (w : World) (operation : String) : Ancestry → Option Operation
  | [] => none
  | (c, name) :: rest =>
    (w.declared? c (PrivateName.key name operation)).or (parent? w operation rest)

end World

end Introspect
