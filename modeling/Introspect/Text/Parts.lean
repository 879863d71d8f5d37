/-! The parts of a text that stand between its marks, such as those of a qualified name between its dots. -/
namespace Introspect.Text

/-- What stands before, between and after the marks; without a mark, everything. -/
def cut (mark : Char) : List Char → List (List Char)
  | [] => [[]]
  | c :: rest =>
    if c = mark then [] :: cut mark rest
    else match cut mark rest with
      | [] => [[c]]
      | part :: parts => (c :: part) :: parts

/-- The names that a qualified name is made of. -/
def parts (s : String) : List String := (cut '.' s.toList).map String.ofList

end Introspect.Text
