import Introspect.Fault
import Introspect.Pairs
import Introspect.Text.Blank
import Introspect.Text.Lines
/-! Properties read from lines `key=value`. -/
namespace Introspect

abbrev Props := List (String × String)

namespace Props

/-- What a line says once its outer blanks are gone. -/
inductive Line where
  | skipped
  | pair (key value : String)
  | malformed (text : String)
deriving DecidableEq

def trimmed (cs : List Char) : String := String.ofList (Text.trimBy Text.isBlank cs)

/-- Empty lines and comments are skipped; the first equals sign ends the key, which is not empty. -/
def readLine (line : String) : Line :=
  let cs := Text.trimBy Text.isBlank line.toList
  match cs with
  | [] => .skipped
  | '#' :: _ | '/' :: '/' :: _ => .skipped
  | '=' :: _ => .malformed (String.ofList cs)
  | cs =>
    match cs.dropWhile (· ≠ '=') with
    | [] => .malformed (String.ofList cs)
    | _ :: value => .pair (trimmed (cs.takeWhile (· ≠ '='))) (trimmed value)

/-- Reads the lines from the given number on, adding to the properties read so far. -/
def readLines (source : String) : Nat → Props → List String → Except Fault Props
  | _, props, [] => .ok props
  | number, props, line :: rest =>
    match readLine line with
    | .skipped => readLines source (number + 1) props rest
    | .pair key value => readLines source (number + 1) (Pairs.put key value props) rest
    | .malformed text => .error (.badProps source number text)

def parse (text source : String) : Except Fault Props := readLines source 1 [] (Text.lines text)

end Props

end Introspect
