import Introspect.Text.Printable
/-! Quoted forms of texts and byte strings, as a display of a value shows them. -/
namespace Introspect.Text

def apostrophe : Char := Char.ofNat 0x27

/-- `width` hexadecimal digits in lower case. -/
def hex (width n : Nat) : List Char :=
  let digits := Nat.toDigits 16 n
  List.replicate (width - digits.length) '0' ++ digits

/-- Double quotes only around a text that holds apostrophes and no double quote. -/
def quoteFor (cs : List Char) : Char :=
  if cs.contains apostrophe && !cs.contains '"' then '"' else apostrophe

/-- The escapes that texts and byte strings share. -/
def escapeCommon? (quote c : Char) : Option (List Char) :=
  if c = quote ∨ c = '\\' then some ['\\', c]
  else if c = '\n' then some ['\\', 'n']
  else if c = '\r' then some ['\\', 'r']
  else if c = '\t' then some ['\\', 't']
  else none

def escapeChar (quote c : Char) : List Char :=
  (escapeCommon? quote c).getD <|
    if isPrintable c then [c]
    else if c.toNat ≤ 0xFF then '\\' :: 'x' :: hex 2 c.toNat
    else if c.toNat ≤ 0xFFFF then '\\' :: 'u' :: hex 4 c.toNat
    else '\\' :: 'U' :: hex 8 c.toNat

def escapeByte (quote c : Char) : List Char :=
  (escapeCommon? quote c).getD <|
    if 0x20 ≤ c.toNat ∧ c.toNat < 0x7F then [c] else '\\' :: 'x' :: hex 2 c.toNat

/-- A text in quotes, with what cannot be shown escaped. -/
def quoted (s : String) : String :=
  let cs := s.toList
  let q := quoteFor cs
  String.ofList (q :: cs.flatMap (escapeChar q) ++ [q])

/-- The characters with the code points of the bytes. -/
def latin1 (bytes : List UInt8) : List Char := bytes.map fun b => Char.ofNat b.toNat

def quotedBytes (bytes : List UInt8) : String :=
  let cs := latin1 bytes
  let q := quoteFor cs
  String.ofList ('b' :: q :: cs.flatMap (escapeByte q) ++ [q])

/-- As byte strings, but with every apostrophe escaped whatever the quotes. -/
def quotedBuffer (bytes : List UInt8) : String :=
  let cs := latin1 bytes
  let q := quoteFor cs
  String.ofList ('b' :: q :: cs.flatMap (escapeByte apostrophe) ++ [q])

end Introspect.Text
