/-! Which styles a text may be written in. -/
namespace Introspect.Yaml

def isBreak (c : Char) : Bool :=
  c = '\n' || c = '\x85' || c = '\u2028' || c = '\u2029'

/-- Characters that end an indicator. -/
def isSpace (c : Char) : Bool :=
  c.toNat = 0 || c = ' ' || c = '\t' || c = '\r' || isBreak c

/-- Characters outside ASCII that need no escape. -/
def isUnescaped (c : Char) : Bool :=
  let n := c.toNat
  c = '\x85' || (0xA0 ≤ n && n ≤ 0xD7FF) || (0xE000 ≤ n && n ≤ 0xFFFD && n ≠ 0xFEFF) ||
    (0x10000 ≤ n && n < 0x10FFFF)

def isAscii (c : Char) : Bool := 0x20 ≤ c.toNat && c.toNat ≤ 0x7E

/-- Can only be written with an escape. -/
def isSpecial (c : Char) : Bool := !(c = '\n' || isAscii c || isUnescaped c)

structure Analysis where
  isEmpty : Bool
  isMultiline : Bool
  allowsPlain : Bool
  allowsSingleQuoted : Bool
deriving DecidableEq

namespace Analysis

/-- Indicators that a plain text cannot start with. -/
def startIndicators : List Char := "#,[]\x7b\x7d&*!|>\"%@".toList ++ [Char.ofNat 0x27, Char.ofNat 0x60]

/-- At the start: an indicator, or one that stands alone before a space. -/
def startsIndicator : List Char → Bool
  | [] => false
  | c :: rest =>
    startIndicators.contains c ||
      ((c = '?' || c = ':' || c = '-') && (rest.head?.all isSpace))

/-- Behind the start: a colon before a space, or a number sign after one. -/
def holdsIndicator (afterSpace : Bool) : List Char → Bool
  | [] => false
  | c :: rest =>
    (c = ':' && rest.head?.all isSpace) || (c = '#' && afterSpace) ||
      holdsIndicator (isSpace c) rest

def startsDocument (cs : List Char) : Bool :=
  cs.take 3 = ['-', '-', '-'] || cs.take 3 = ['.', '.', '.']

def holdsPair (p q : Char → Bool) : List Char → Bool
  | a :: b :: rest => (p a && q b) || holdsPair p q (b :: rest)
  | _ => false

def isBlankOrBreak (c : Char) : Bool := c = ' ' || isBreak c

/-- Plain texts have no outer blanks, no breaks and no indicators; single quotes hold anything but
special characters and blanks beside breaks. -/
def ofText (cs : List Char) : Analysis :=
  match cs with
  | [] => ⟨true, false, true, true⟩
  | c :: rest =>
    let breakSpace := holdsPair isBreak (· = ' ') cs
    let spaceBreak := holdsPair (· = ' ') isBreak cs
    let special := cs.any isSpecial
    let outer := isBlankOrBreak c || cs.getLast?.any isBlankOrBreak
    let multiline := cs.any isBreak
    let indicator := startsDocument cs || startsIndicator cs || holdsIndicator (isSpace c) rest
    { isEmpty := false
      isMultiline := multiline
      allowsPlain := !(outer || breakSpace || spaceBreak || special || multiline || indicator)
      allowsSingleQuoted := !(breakSpace || spaceBreak || special) }

end Analysis

end Introspect.Yaml
