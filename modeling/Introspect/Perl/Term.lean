import Introspect.Perl.Path
import Introspect.Text.Quoted
/-! Perl data literals as terms, and their layout. -/
namespace Introspect.Perl

inductive Term where
  | undefined
  | bare (text : List Char)
  | quoted (content : List Char)
  | code
  | path (p : Path)
  | reference (t : Term)
  | array (items : List Term)
  | hash (entries : List (List Char × Term))
  | blessed (t : Term) (cls : List Char)

def escape : List Char → List Char
  | [] => []
  | c :: rest =>
    if c = '\\' ∨ c = Text.apostrophe then '\\' :: c :: escape rest else c :: escape rest

/-- Single quotes around a text; they and backslashes are escaped in it. -/
def quote (content : List Char) : List Char :=
  Text.apostrophe :: escape content ++ [Text.apostrophe]

/-- A new line and its indentation; an indent of zero keeps everything on one line. -/
def newline (indent : Int) (level : Nat) : List Char :=
  (if indent = 0 then [] else ['\n']) ++ List.replicate (level * indent).toNat ' '

def undefinedText : List Char := "undef".toList

def codeText : List Char := "sub \x7b \"DUMMY\" \x7d".toList

def keyArrow : List Char := " => ".toList

def blessOpening : List Char := "bless( ".toList

def classComma : List Char := ", ".toList

def blessClosing : List Char := " )".toList

namespace Term

mutual

/-- The text of a term that stands inside `level` open literals. -/
def chars (indent : Int) (level : Nat) : Term → List Char
  | .undefined => undefinedText
  | .bare text => text
  | .quoted content => quote content
  | .code => codeText
  | .path p => p.text
  | .reference t => '\\' :: t.chars indent level
  | .array [] => ['[', ']']
  | .array (t :: rest) =>
    '[' :: newline indent (level + 1) ++ t.chars indent (level + 1) ++
      itemChars indent (level + 1) rest ++ newline indent level ++ [']']
  | .hash [] => ['\x7b', '\x7d']
  | .hash ((key, t) :: rest) =>
    '\x7b' :: newline indent (level + 1) ++ key ++ keyArrow ++ t.chars indent (level + 1) ++
      entryChars indent (level + 1) rest ++ newline indent level ++ ['\x7d']
  | .blessed t cls =>
    blessOpening ++ t.chars indent level ++ classComma ++ quote cls ++ blessClosing

def itemChars (indent : Int) (level : Nat) : List Term → List Char
  | [] => []
  | t :: rest =>
    ',' :: newline indent level ++ t.chars indent level ++ itemChars indent level rest

def entryChars (indent : Int) (level : Nat) : List (List Char × Term) → List Char
  | [] => []
  | (key, t) :: rest =>
    ',' :: newline indent level ++ key ++ keyArrow ++ t.chars indent level ++
      entryChars indent level rest

end

def render (indent : Int) (t : Term) : String := String.ofList (t.chars indent 0)

end Term

end Introspect.Perl
