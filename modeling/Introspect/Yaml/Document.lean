import Introspect.Data.Basic
import Introspect.Yaml.Implicit
import Introspect.Yaml.Output
/-! Plain data as a YAML document in block style. -/
namespace Introspect.Yaml

def step : Nat := 2

def floatText : Double → String
  | .nan => ".nan"
  | .infinite negative => if negative then "-.inf" else ".inf"
  | x =>
    let cs := x.text.toList
    if cs.contains '.' || !cs.contains 'e' then x.text
    else String.ofList (cs.takeWhile (· ≠ 'e') ++ ".0".toList ++ cs.dropWhile (· ≠ 'e'))

/-- A key is written on one line with its value unless it is empty, broken or long. Its tag counts
with five characters. -/
def isSimpleKey (cs : List Char) : Bool :=
  cs.length + 5 < 128 && !cs.isEmpty && !(Analysis.ofText cs).isMultiline

inductive Style where
  | plain | single | double
deriving DecidableEq

/-- The plain style if the text reads back from it, else single quotes if they can hold it. -/
def styleOf (isKey : Bool) (cs : List Char) : Style :=
  let a := Analysis.ofText cs
  let broken := isKey && a.isMultiline
  if !Implicit.isImplicit (String.ofList cs) && !(isKey && a.isEmpty) && !broken && a.allowsPlain
  then .plain
  else if a.allowsSingleQuoted && !broken then .single
  else .double

/-- Writes a text in the style that suits it; texts of simple keys are not folded. -/
def writeText (isKey : Bool) (indent : Nat) (s : String) (o : Output) : Output :=
  let cs := s.toList
  match styleOf isKey cs with
  | .plain => writePlain (!isKey) indent cs o
  | .single => writeSingleQuoted (!isKey) indent cs o
  | .double => writeDoubleQuoted (!isKey) indent cs o

/-- The indentation below a level; the document itself has none. -/
def below : Option Nat → Nat
  | none => 0
  | some n => n + step

/-- The indentation of the lines that a folded text continues on. -/
def textIndent : Option Nat → Nat
  | none => step
  | some n => n + step

/-- A text of a derived class is refused. -/
def checkText (t : Data.Text) : Except Fault Unit :=
  if t.cls ≠ .native .str then .error (.host .representerError "") else .ok ()

def writeKey (indent : Nat) (k : Data.Text) (o : Output) : Except Fault Output := do
  checkText k
  let o := o.indentTo indent
  if isSimpleKey k.text.toList then
    return (writeText true (indent + step) k.text o).indicator [':'] false false false
  else
    let o := writeText false (indent + step) k.text (o.indicator ['?'] true false true)
    return (o.indentTo indent).indicator [':'] true false true

mutual

/-- Writes data at an indentation; `inDict` tells that it is the value of a key. -/
def write (indent : Option Nat) (inDict : Bool) : Data → Output → Except Fault Output
  | .null, o => .ok (writePlain true (textIndent indent) "null".toList o)
  | .bool b, o =>
    .ok (writePlain true (textIndent indent) (if b then "true" else "false").toList o)
  | .int i, o => do
    return writePlain true (textIndent indent) (← (Atom.int i).asText).toList o
  | .float x, o => .ok (writePlain true (textIndent indent) (floatText x).toList o)
  | .text t, o => do
    checkText t
    return writeText false (textIndent indent) t.text o
  | .list [], o => .ok ((o.indicator ['['] true true false).indicator [']'] false false false)
  | .dict [], o => .ok ((o.indicator ['\x7b'] true true false).indicator ['\x7d'] false false false)
  | .list (d :: rest), o =>
    -- A list directly behind a key is not indented further.
    let inner := match indent with
      | some n => if inDict && !o.onlyIndicators then n else below indent
      | none => below indent
    writeItems inner (d :: rest) o
  | .dict (entry :: rest), o => writeEntries (below indent) (entry :: rest) o

def writeItems (indent : Nat) : List Data → Output → Except Fault Output
  | [], o => .ok o
  | d :: rest, o => do
    let o := (o.indentTo indent).indicator ['-'] true false true
    writeItems indent rest (← write (some indent) false d o)

def writeEntries (indent : Nat) : List (Data.Text × Data) → Output → Except Fault Output
  | [], o => .ok o
  | (k, d) :: rest, o => do
    let o ← writeKey indent k o
    writeEntries indent rest (← write (some indent) true d o)

end

/-- Whether the root is written in the plain style, so that only an end mark closes it. -/
def isPlainRoot : Data → Bool
  | .list _ | .dict _ => false
  | .text t => styleOf false t.text.toList = .plain
  | _ => true

def render (d : Data) : Except Fault String := do
  let o ← write none false d (Output.start.indicator "---".toList true false false)
  let o := o.indentTo 0
  let o := if isPlainRoot d then (o.indicator "...".toList true false false).indentTo 0 else o
  return o.text

end Introspect.Yaml
