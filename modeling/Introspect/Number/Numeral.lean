import Introspect.Number.Basic
/-!
Numbers written in texts. Recognising a numeral and reading it are two grammars: the first takes
any blank around the number and folds every dotted and dotless `i`, the second does not.
-/
namespace Introspect.Numeral

open Text

/-! ## Recognising -/

/-- Folds the letters of the words `inf`, `infinity` and `nan`. -/
def foldLetter (c : Char) : Char :=
  if c = '\u0130' ∨ c = '\u0131' then 'i' else c.toLower

def isWord (words : List String) (cs : List Char) : Bool := words.contains (String.ofList cs)

def isExponent : List Char → Bool
  | [] => true
  | c :: rest =>
    (c = 'e' || c = 'E') &&
      match Decimal.readDigits (Decimal.readSign rest).2 with
      | (_, _ + 1, []) => true
      | _ => false

/-- Digits with at most one point among, before or after them, and an optional exponent. -/
def isDecimal (cs : List Char) : Bool :=
  match Decimal.readDigits cs with
  | (_, 0, '.' :: rest) =>
    match Decimal.readDigits rest with
    | (_, 0, _) => false
    | (_, _ + 1, rest) => isExponent rest
  | (_, 0, _) => false
  | (_, _ + 1, '.' :: rest) => isExponent (Decimal.readDigits rest).2.2
  | (_, _ + 1, rest) => isExponent rest

/-- A text that holds one number and blanks around it. -/
def looksNumeric (s : String) : Bool :=
  let cs := (Decimal.readSign (trimBy isBlank s.toList)).2
  isDecimal cs || isWord ["inf", "infinity", "nan"] (cs.map foldLetter)

/-- A numeral without point, exponent and word. -/
def looksIntegral (s : String) : Bool :=
  match Decimal.readDigits (Decimal.readSign (trimBy isBlank s.toList)).2 with
  | (_, _ + 1, []) => true
  | _ => false

/-! ## Reading -/

/-- What the last character was, for placing underscores. -/
inductive Last where
  | digit | underscore | other
deriving DecidableEq

/-- Drops underscores, which may only stand singly between digits. -/
def dropUnderscores? : Last → List Char → Option (List Char)
  | last, [] => if last = .underscore then none else some []
  | last, c :: rest =>
    if c = '_' then if last = .digit then dropUnderscores? .underscore rest else none
    else if isDigit c then (dropUnderscores? .digit rest).map (c :: ·)
    else if last = .underscore then none
    else (dropUnderscores? .other rest).map (c :: ·)

/-- The characters of the number: a separator is no blank here. -/
def body? (s : String) : Option (List Char) :=
  dropUnderscores? .other (trimBy (fun c => isBlank c && !isSeparator c) s.toList)

/-- The most digits that an integer may be read from or written with. -/
def digitLimit : Nat := 4300

def readInt? (s : String) : Option Int := do
  let (negative, cs) := Decimal.readSign (← body? s)
  match Decimal.readDigits cs with
  | (value, count + 1, []) =>
    if count + 1 > digitLimit then none
    else some (if negative then -(value : Int) else value)
  | _ => none

def readDouble? (s : String) : Option Double := do
  let (negative, cs) := Decimal.readSign (← body? s)
  let letters := cs.map Char.toLower
  if isWord ["inf", "infinity"] letters then some (.infinite negative)
  else if isWord ["nan"] letters then some .nan
  else
    let (whole, count, rest) := Decimal.readDigits cs
    let (value, places, rest) := match rest with
      | '.' :: rest =>
        let (part, places, rest) := Decimal.readDigits rest
        (whole * Nat.pow 10 places + part, places, rest)
      | rest => (whole, 0, rest)
    if count + places = 0 then none
    else (Decimal.readExponent? rest).map fun e => .ofDecimal negative value (e - places)

/-- The number that a numeral stands for. -/
def read? (s : String) : Option Number :=
  if looksIntegral s then (readInt? s).map .int else (readDouble? s).map .float

/-- The integer in base ten, unless it has too many digits. -/
def intText? (i : Int) : Option String :=
  let s := toString i.natAbs
  if s.length > digitLimit then none else some (toString i)

end Introspect.Numeral
