import Introspect.Proofs.Number.Spelling
import Introspect.Data.Json
/-!
The grammar of JSON texts of RFC 8259, and a reader of them. The grammar says which texts are valid, the
reader what data they stand for: a number with a point or an exponent is the floating-point number nearest
to it, any other an integer, and a later value of a name replaces an earlier one.
-/
namespace Introspect.Json

/-- The four blank characters. -/
def isBlank (c : Char) : Bool := c = ' ' || c = '\t' || c = '\n' || c = '\r'

def isHexDigit (c : Char) : Bool := c.isDigit || ('a' ≤ c && c ≤ 'f') || ('A' ≤ c && c ≤ 'F')

/-! ## The grammar -/

namespace Grammar

def Blank (cs : List Char) : Prop := ∀ c ∈ cs, isBlank c = true

/-- What stands between the quotes of a string. -/
inductive Content : List Char → Prop where
  | nil : Content []
  | unescaped {c rest} : 0x20 ≤ c.toNat → c ≠ '"' → c ≠ '\\' → Content rest → Content (c :: rest)
  | escaped {c rest} : c ∈ ['"', '\\', '/', 'b', 'f', 'n', 'r', 't'] → Content rest → Content ('\\' :: c :: rest)
  | numbered {digits rest} : digits.length = 4 → (∀ c ∈ digits, isHexDigit c = true) → Content rest →
      Content ('\\' :: 'u' :: (digits ++ rest))

inductive IsString : List Char → Prop where
  | quoted {content} : Content content → IsString ('"' :: (content ++ ['"']))

inductive Fraction : List Char → Prop where
  | absent : Fraction []
  | pointed {digits} : Numeral.Digits digits → Fraction ('.' :: digits)

inductive Exponent : List Char → Prop where
  | absent : Exponent []
  | power {e sign digits} : e ∈ ['e', 'E'] → sign ∈ [[], ['-'], ['+']] → Numeral.Digits digits →
      Exponent (e :: (sign ++ digits))

inductive IsNumber : List Char → Prop where
  | parts {sign whole fraction exponent} : sign ∈ [[], ['-']] → Numeral.Digits whole → Numeral.Unpadded whole →
      Fraction fraction → Exponent exponent → IsNumber (sign ++ (whole ++ (fraction ++ exponent)))

mutual

inductive Value : List Char → Prop where
  | null : Value "null".toList
  | true : Value "true".toList
  | false : Value "false".toList
  | number {cs} : IsNumber cs → Value cs
  | string {cs} : IsString cs → Value cs
  | emptyArray {ws} : Blank ws → Value ('[' :: (ws ++ [']']))
  | array {cs} : Elements cs → Value ('[' :: (cs ++ [']']))
  | emptyObject {ws} : Blank ws → Value ('\x7b' :: (ws ++ ['\x7d']))
  | object {cs} : Members cs → Value ('\x7b' :: (cs ++ ['\x7d']))

/-- A value with blanks around it. -/
inductive Element : List Char → Prop where
  | spaced {before cs after} : Blank before → Value cs → Blank after → Element (before ++ (cs ++ after))

inductive Elements : List Char → Prop where
  | single {cs} : Element cs → Elements cs
  | cons {cs more} : Element cs → Elements more → Elements (cs ++ ',' :: more)

inductive Member : List Char → Prop where
  | named {before name after cs} : Blank before → IsString name → Blank after → Element cs →
      Member (before ++ (name ++ (after ++ ':' :: cs)))

inductive Members : List Char → Prop where
  | single {cs} : Member cs → Members cs
  | cons {cs more} : Member cs → Members more → Members (cs ++ ',' :: more)

end

/-- A valid JSON text. -/
def IsText (cs : List Char) : Prop := Element cs

end Grammar

/-! ## Reading -/

def skipBlanks (cs : List Char) : List Char := cs.dropWhile isBlank

def hexValue (c : Char) : Nat :=
  if c.isDigit then c.toNat - 48 else if 'a' ≤ c then c.toNat - 87 else c.toNat - 55

/-- The number of four hexadecimal digits. -/
def unit? (a b c d : Char) : Option Nat :=
  if [a, b, c, d].all isHexDigit then some ([a, b, c, d].foldl (fun n c => 16 * n + hexValue c) 0) else none

def isLead (n : Nat) : Bool := 0xD800 ≤ n && n < 0xDC00

def isTrail (n : Nat) : Bool := 0xDC00 ≤ n && n < 0xE000

/-- The character that a short escape stands for. -/
def escaped? (c : Char) : Option Char :=
  if c = '"' ∨ c = '\\' ∨ c = '/' then some c
  else if c = 'b' then some '\x08'
  else if c = 'f' then some '\x0c'
  else if c = 'n' then some '\n'
  else if c = 'r' then some '\r'
  else if c = 't' then some '\t'
  else none

/-- The characters up to the closing quote, and what follows it. Two numbered escapes may be one
character; half of such a pair is none. -/
def content? : List Char → Option (List Char × List Char)
  | [] => none
  | c :: rest =>
    if c = '"' then some ([], rest)
    else if c = '\\' then
      match rest with
      | [] => none
      | e :: rest =>
        if e = 'u' then
          match rest with
          | a :: b :: c :: d :: rest => do
            let n ← unit? a b c d
            if isLead n then
              match rest with
              | slash :: letter :: a :: b :: c :: d :: rest => do
                let m ← if slash = '\\' ∧ letter = 'u' then unit? a b c d else none
                if isTrail m then
                  let (found, rest) ← content? rest
                  return (Char.ofNat (0x10000 + (n - 0xD800) * 0x400 + (m - 0xDC00)) :: found, rest)
                else none
              | _ => none
            else if isTrail n then none
            else
              let (found, rest) ← content? rest
              return (Char.ofNat n :: found, rest)
          | _ => none
        else do
          let e ← escaped? e
          let (found, rest) ← content? rest
          return (e :: found, rest)
    else if c.toNat < 0x20 then none
    else do
      let (found, rest) ← content? rest
      return (c :: found, rest)
termination_by structural cs => cs

def isNumberChar (c : Char) : Bool := c.isDigit || c = '-' || c = '+' || c = '.' || c = 'e' || c = 'E'

/-- Digits behind a point, and what follows them; nothing without a point. -/
def dropFraction? : List Char → Option (List Char)
  | '.' :: rest => if (rest.takeWhile Char.isDigit).isEmpty then none else some (rest.dropWhile Char.isDigit)
  | rest => some rest

def isPower : List Char → Bool
  | [] => true
  | e :: rest =>
    let digits := (Decimal.readSign rest).2
    (e = 'e' || e = 'E') && !digits.isEmpty && digits.all Char.isDigit

/-- The number that a numeral stands for. -/
def numeral? (cs : List Char) : Option Data :=
  let unsigned := if cs.head? = some '-' then cs.tail else cs
  let whole := unsigned.takeWhile Char.isDigit
  let rest := unsigned.dropWhile Char.isDigit
  if whole.isEmpty ∨ whole.head? = some '0' ∧ whole ≠ ['0'] then none
  else if rest.isEmpty then
    let n : Int := Nat.ofDigitChars 10 whole 0
    some (.int (if cs.head? = some '-' then -n else n))
  else if (dropFraction? rest).any isPower then (Numeral.readDouble? (String.ofList cs)).map .float
  else none

section Sequences

variable {α : Type}

/-- Items with commas between them up to the closing character, of which there are at most `bound`. -/
def sequence? (close : Char) (item? : List Char → Option (α × List Char)) : Nat → List Char → Option (List α × List Char)
  | 0, _ => none
  | bound + 1, cs => do
    let (x, rest) ← item? (skipBlanks cs)
    match skipBlanks rest with
    | [] => none
    | c :: rest =>
      if c = close then return ([x], rest)
      else if c = ',' then
        let (found, rest) ← sequence? close item? bound rest
        return (x :: found, rest)
      else none

/-- What a container holds, and what follows it. -/
def contained? (close : Char) (item? : List Char → Option (α × List Char)) (cs : List Char) :
    Option (List α × List Char) :=
  let cs := skipBlanks cs
  if cs.head? = some close then some ([], cs.tail) else sequence? close item? cs.length cs

end Sequences

/-- A name, a colon and a value. -/
def member? (value? : List Char → Option (Data × List Char)) : List Char → Option ((Data.Text × Data) × List Char)
  | [] => none
  | c :: rest =>
    if c = '"' then do
      let (name, rest) ← content? rest
      match skipBlanks rest with
      | [] => none
      | c :: rest =>
        if c = ':' then
          let (d, rest) ← value? (skipBlanks rest)
          return ((.plain (String.ofList name), d), rest)
        else none
    else none

/-- The value in front of the text, and what follows it. Values nest at most `depth` deep. -/
def value? : Nat → List Char → Option (Data × List Char)
  | 0, _ => none
  | _ + 1, [] => none
  | depth + 1, c :: rest =>
    if c = '"' then do
      let (found, rest) ← content? rest
      return (.text (.plain (String.ofList found)), rest)
    else if c = '[' then do
      let (found, rest) ← contained? ']' (value? depth) rest
      return (.list found, rest)
    else if c = '\x7b' then do
      let (found, rest) ← contained? '\x7d' (member? (value? depth)) rest
      return (.dict (Data.ofEntries found), rest)
    else if c = 'n' then do return (.null, ← rest.dropPrefix? "ull".toList)
    else if c = 't' then do return (.bool true, ← rest.dropPrefix? "rue".toList)
    else if c = 'f' then do return (.bool false, ← rest.dropPrefix? "alse".toList)
    else do return (← numeral? ((c :: rest).takeWhile isNumberChar), (c :: rest).dropWhile isNumberChar)

/-- The data that a text stands for. -/
def parse? (s : String) : Option Data := do
  let (d, rest) ← value? s.length (skipBlanks s.toList)
  if (skipBlanks rest).isEmpty then return d else none

end Introspect.Json
