/-! Unquoted texts that YAML 1.1 reads as something else than a text. -/
namespace Introspect.Yaml.Implicit

def isDigit (c : Char) : Bool := '0' ≤ c && c ≤ '9'

def isDigitOr (c : Char) : Bool := isDigit c || c = '_'

def dropSign : List Char → List Char
  | c :: rest => if c = '+' ∨ c = '-' then rest else c :: rest
  | [] => []

def isBool (s : String) : Bool :=
  ["yes", "Yes", "YES", "no", "No", "NO", "true", "True", "TRUE", "false", "False", "FALSE", "on",
   "On", "ON", "off", "Off", "OFF"].contains s

def isNull (s : String) : Bool := ["", "~", "null", "Null", "NULL"].contains s

/-- A merge key, a default value, and the marks of nodes. -/
def isMark (s : String) : Bool := ["<<", "=", "!", "&", "*"].contains s

/-- Groups `:m` or `:mm` of minutes and seconds, at least one of them, up to `last`. -/
def isSexagesimal (last : List Char → Bool) : Nat → List Char → Bool
  | 0, _ => false
  | fuel + 1, ':' :: a :: b :: rest =>
    (isDigit a && (last (b :: rest) || isSexagesimal last fuel (b :: rest))) ||
      ('0' ≤ a && a ≤ '5' && isDigit b && (last rest || isSexagesimal last fuel rest))
  | _, [':', a] => isDigit a && last []
  | _, _ => false

/-- An exponent needs a sign. -/
def isExponent : List Char → Bool
  | [] => true
  | e :: sign :: rest =>
    (e = 'e' || e = 'E') && (sign = '+' || sign = '-') && !rest.isEmpty && rest.all isDigit
  | _ => false

def isFraction : List Char → Bool
  | '.' :: rest => isExponent (rest.dropWhile isDigitOr)
  | _ => false

def isPointDigits : List Char → Bool
  | '.' :: rest => rest.all isDigitOr
  | _ => false

def isFloat (cs : List Char) : Bool :=
  let unsigned := dropSign cs
  (match unsigned with
    | c :: rest =>
      isDigit c && (isFraction (rest.dropWhile isDigitOr) ||
        isSexagesimal isPointDigits cs.length (rest.dropWhile isDigitOr))
    | [] => false) ||
  (match cs with
    | '.' :: c :: rest => isDigit c && isExponent (rest.dropWhile isDigitOr)
    | _ => false) ||
  [".inf", ".Inf", ".INF"].contains (String.ofList unsigned) ||
  [".nan", ".NaN", ".NAN"].contains (String.ofList cs)

def isHexOr (c : Char) : Bool :=
  isDigitOr c || ('a' ≤ c && c ≤ 'f') || ('A' ≤ c && c ≤ 'F')

def isInt (cs : List Char) : Bool :=
  match dropSign cs with
  | '0' :: 'b' :: rest => !rest.isEmpty && rest.all fun c => c = '0' || c = '1' || c = '_'
  | '0' :: 'x' :: rest => !rest.isEmpty && rest.all isHexOr
  | '0' :: rest => rest.all fun c => ('0' ≤ c && c ≤ '7') || c = '_'
  | c :: rest =>
    isDigit c && (rest.all isDigitOr ||
      isSexagesimal List.isEmpty cs.length (rest.dropWhile isDigitOr))
  | [] => false

/-- Takes from `low` to `high` digits; every way of doing so is tried. -/
def digits (low high : Nat) (next : List Char → Bool) (cs : List Char) : Bool :=
  (List.range (high + 1)).any fun n =>
    low ≤ n && (cs.take n).length = n && (cs.take n).all isDigit && next (cs.drop n)

def literally (c : Char) (next : List Char → Bool) : List Char → Bool
  | x :: rest => x = c && next rest
  | [] => false

def isBlank (c : Char) : Bool := c = ' ' || c = '\t'

/-- Nothing, `Z`, or an offset of hours and minutes, after blanks. -/
def isZone (cs : List Char) : Bool :=
  cs.isEmpty ||
    match cs.dropWhile isBlank with
    | ['Z'] => true
    | sign :: rest =>
      (sign = '+' || sign = '-') &&
        digits 1 2 (fun rest => rest.isEmpty || literally ':' (digits 2 2 List.isEmpty) rest) rest
    | [] => false

def isSecondsEnd : List Char → Bool
  | '.' :: rest => isZone (rest.dropWhile isDigit)
  | rest => isZone rest

def isTime : List Char → Bool :=
  digits 1 2 (literally ':' (digits 2 2 (literally ':' (digits 2 2 isSecondsEnd))))

/-- A time after `T` or blanks. -/
def isTimePart : List Char → Bool
  | c :: rest =>
    if c = 'T' ∨ c = 't' then isTime rest
    else isBlank c && isTime (rest.dropWhile isBlank)
  | [] => false

def isTimestamp (cs : List Char) : Bool :=
  digits 4 4 (literally '-' (digits 2 2 (literally '-' (digits 2 2 List.isEmpty)))) cs ||
    digits 4 4 (literally '-' (digits 1 2 (literally '-' (digits 1 2 isTimePart)))) cs

/-- The text does not read back as a text. -/
def isImplicit (s : String) : Bool :=
  let cs := s.toList
  isBool s || isNull s || isMark s || isFloat cs || isInt cs || isTimestamp cs

end Introspect.Yaml.Implicit
