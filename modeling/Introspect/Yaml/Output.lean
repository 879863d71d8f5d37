import Introspect.Yaml.Analysis
import Introspect.Text.Quoted
/-! The output of a YAML document, and texts written into it in three styles. -/
namespace Introspect.Yaml

/-- Lines longer than this are folded at their next blank. -/
def width : Nat := 80

/-- What was written, the last character first, and where it ended: the column, behind a blank, or
with nothing but indicators on the line. -/
structure Output where
  written : List Char
  column : Nat
  afterBlank : Bool
  onlyIndicators : Bool

namespace Output

def start : Output := ⟨[], 0, true, true⟩

def put (cs : List Char) (o : Output) : Output :=
  { o with written := cs.reverse ++ o.written, column := o.column + cs.length }

def lineBreak (c : Char) (o : Output) : Output := ⟨c :: o.written, 0, true, true⟩

/-- Goes to the indentation, on a new line unless the output stands there already. -/
def indentTo (indent : Nat) (o : Output) : Output :=
  let o := if !o.onlyIndicators || o.column > indent || (o.column = indent && !o.afterBlank) then
    o.lineBreak '\n' else o
  if o.column < indent then
    { o.put (List.replicate (indent - o.column) ' ') with afterBlank := true }
  else o

/-- Writes an indicator, behind a blank if it needs one. -/
def indicator (cs : List Char) (needsBlank leavesBlank keepsIndent : Bool) (o : Output) : Output :=
  let o' := o.put (if o.afterBlank || !needsBlank then cs else ' ' :: cs)
  { o' with afterBlank := leavesBlank, onlyIndicators := o.onlyIndicators && keepsIndent }

def text (o : Output) : String := String.ofList o.written.reverse

/-- Continues a folded text on the next line. -/
def fold (indent : Nat) (o : Output) : Output :=
  { o.indentTo indent with afterBlank := false, onlyIndicators := false }

end Output

/-! ## Styles -/

/-- What a run of characters consists of. -/
inductive RunKind where
  | word | blanks | breaks
deriving DecidableEq

def runKind (c : Char) : RunKind :=
  if c = ' ' then .blanks else if isBreak c then .breaks else .word

/-- Cuts a text where the kind of its characters changes. -/
def runs : List Char → List (RunKind × List Char)
  | [] => []
  | c :: rest =>
    match runs rest with
    | (kind, cs) :: more =>
      if kind = runKind c then (kind, c :: cs) :: more else (runKind c, [c]) :: (kind, cs) :: more
    | [] => [(runKind c, [c])]

/-- A single blank beyond the width becomes the end of a line. -/
def plainRuns (split : Bool) (indent : Nat) : List (RunKind × List Char) → Output → Output
  | [], o => o
  | (kind, cs) :: rest, o =>
    plainRuns split indent rest <|
      if kind = .blanks && cs.length = 1 && o.column > width && split then o.fold indent
      else o.put cs

def writePlain (split : Bool) (indent : Nat) (cs : List Char) (o : Output) : Output :=
  if cs.isEmpty then o
  else
    let o := if o.afterBlank then o else o.put [' ']
    plainRuns split indent (runs cs) { o with afterBlank := false, onlyIndicators := false }

/-- A break within single quotes is written twice if it is a line feed. -/
def writeBreaks (indent : Nat) (cs : List Char) (o : Output) : Output :=
  let o := if cs.head? = some '\n' then o.lineBreak '\n' else o
  (cs.foldl (fun o c => o.lineBreak c) o).indentTo indent

def doubleQuotes (cs : List Char) : List Char :=
  cs.flatMap fun c => if c = Text.apostrophe then [c, c] else [c]

/-- As in a plain text, but neither the first nor the last run is folded. -/
def singleQuotedRuns (split : Bool) (indent : Nat) (isFirst : Bool) :
    List (RunKind × List Char) → Output → Output
  | [], o => o
  | (kind, cs) :: rest, o =>
    singleQuotedRuns split indent false rest <|
      match kind with
      | .blanks =>
        if cs.length = 1 && o.column > width && split && !isFirst && !rest.isEmpty then
          o.indentTo indent
        else o.put cs
      | .breaks => writeBreaks indent cs o
      | .word => o.put (doubleQuotes cs)

def writeSingleQuoted (split : Bool) (indent : Nat) (cs : List Char) (o : Output) : Output :=
  (singleQuotedRuns split indent true (runs cs)
    (o.indicator [Text.apostrophe] true false false)).indicator [Text.apostrophe] false false false

def shortEscapes : List (Nat × Char) :=
  [(0, '0'), (7, 'a'), (8, 'b'), (9, 't'), (10, 'n'), (11, 'v'), (12, 'f'), (13, 'r'), (0x1B, 'e'),
   (0x22, '"'), (0x5C, '\\'), (0x85, 'N'), (0xA0, '_'), (0x2028, 'L'), (0x2029, 'P')]

/-- Within double quotes only some characters stand for themselves. -/
def isEscaped (c : Char) : Bool :=
  let n := c.toNat
  c = '"' || c = '\\' || isBreak c || n = 0xFEFF ||
    !(isAscii c || (0xA0 ≤ n && n ≤ 0xD7FF) || (0xE000 ≤ n && n ≤ 0xFFFD))

def upperHex (width n : Nat) : List Char := (Text.hex width n).map Char.toUpper

def escape (c : Char) : List Char :=
  let n := c.toNat
  match shortEscapes.lookup n with
  | some e => ['\\', e]
  | none =>
    if n ≤ 0xFF then '\\' :: 'x' :: upperHex 2 n
    else if n ≤ 0xFFFF then '\\' :: 'u' :: upperHex 4 n
    else '\\' :: 'U' :: upperHex 8 n

/-- Writes characters within double quotes; `waiting` holds those that were read and not yet
written, the last one first. A line is folded at a blank or behind an escape, and a blank that then
starts a line is escaped. -/
def doubleQuotedChars (split : Bool) (indent : Nat) (isFirst : Bool) (waiting : List Char) :
    List Char → Output → Output
  | [], o => o.put waiting.reverse
  | c :: rest, o =>
    let escaped := isEscaped c
    let o := if escaped then (o.put waiting.reverse).put (escape c) else o
    let waiting := if escaped then [] else waiting
    let reach : Int := o.column + waiting.length - (if escaped then 1 else 0)
    if !isFirst && !rest.isEmpty && (c = ' ' || escaped || waiting.isEmpty) && reach > width &&
        split then
      let o := (o.put (waiting.reverse ++ ['\\'])).fold indent
      let next := if escaped then rest.head? else some c
      let o := if next = some ' ' then o.put ['\\'] else o
      doubleQuotedChars split indent false (if escaped then [] else [c]) rest o
    else doubleQuotedChars split indent false (if escaped then [] else c :: waiting) rest o

def writeDoubleQuoted (split : Bool) (indent : Nat) (cs : List Char) (o : Output) : Output :=
  (doubleQuotedChars split indent true [] cs (o.indicator ['"'] true false false)).indicator
    ['"'] false false false

end Introspect.Yaml
