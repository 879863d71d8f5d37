import Introspect.Data.Basic
/-! Plain data as JSON text. -/
namespace Introspect.Json

/-- The short escapes; other control characters are written by their number. -/
def escapeChar (c : Char) : List Char :=
  if c = '"' ∨ c = '\\' then ['\\', c]
  else if c = '\n' then ['\\', 'n']
  else if c = '\r' then ['\\', 'r']
  else if c = '\t' then ['\\', 't']
  else if c.toNat = 8 then ['\\', 'b']
  else if c.toNat = 12 then ['\\', 'f']
  else if c.toNat < 0x20 then '\\' :: 'u' :: Text.hex 4 c.toNat
  else [c]

def quote (s : String) : List Char := '"' :: s.toList.flatMap escapeChar ++ ['"']

def floatText : Double → String
  | .nan => "NaN"
  | .infinite negative => if negative then "-Infinity" else "Infinity"
  | x => x.text

/-- Starts a line inside `level` open containers, if there is an indentation at all. -/
def newline (indent : Option Int) (level : Nat) : List Char :=
  match indent with
  | none => []
  | some n => '\n' :: List.replicate (level * n).toNat ' '

/-- Between two items: a new line, or a blank without indentation. -/
def separator (indent : Option Int) (level : Nat) : List Char :=
  ',' :: match indent with
    | none => [' ']
    | some _ => newline indent level

mutual

/-- The text of data that stands inside `level` open containers. -/
def chars (indent : Option Int) (level : Nat) : Data → Except Fault (List Char)
  | .null => .ok "null".toList
  | .bool b => .ok (if b then "true" else "false").toList
  | .int i => do return (← (Atom.int i).asText).toList
  | .float x => .ok (floatText x).toList
  | .text t => .ok (quote t.text)
  | .list [] => .ok "[]".toList
  | .list (d :: rest) => do
    let first ← chars indent (level + 1) d
    let others ← itemChars indent (level + 1) rest
    return '[' :: newline indent (level + 1) ++ first ++ others ++ newline indent level ++ [']']
  | .dict [] => .ok "\x7b\x7d".toList
  | .dict ((k, d) :: rest) => do
    let first ← chars indent (level + 1) d
    let others ← entryChars indent (level + 1) rest
    return '\x7b' :: newline indent (level + 1) ++ quote k.text ++ ": ".toList ++ first ++ others ++
      newline indent level ++ ['\x7d']

def itemChars (indent : Option Int) (level : Nat) : List Data → Except Fault (List Char)
  | [] => .ok []
  | d :: rest => do
    let first ← chars indent level d
    let others ← itemChars indent level rest
    return separator indent level ++ first ++ others

def entryChars (indent : Option Int) (level : Nat) :
    List (Data.Text × Data) → Except Fault (List Char)
  | [] => .ok []
  | (k, d) :: rest => do
    let first ← chars indent level d
    let others ← entryChars indent level rest
    return separator indent level ++ quote k.text ++ ": ".toList ++ first ++ others

end

def render (indent : Option Int) (d : Data) : Except Fault String := do
  return String.ofList (← chars indent 0 d)

end Introspect.Json
