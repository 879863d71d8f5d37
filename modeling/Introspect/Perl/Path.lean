/-! Paths from the root of a dump to a value inside it. -/
namespace Introspect.Perl

inductive Path where
  | root
  /-- What the scalar at a path refers to. -/
  | target (p : Path)
  | item (p : Path) (index : Nat)
  | entry (p : Path) (key : List Char)
deriving DecidableEq

namespace Path

/-- Goes on from a target. -/
def leavesTarget : Path → Bool
  | .root => false
  | .target _ => true
  | .item p _ | .entry p _ => p.leavesTarget

/-- The first step from the root and every step that goes on from a target take an arrow. -/
def takesArrow (p : Path) : Bool := p = .root || p.leavesTarget

def arrow (p : Path) : List Char := if p.takesArrow then ['-', '>'] else []

def text : Path → List Char
  | .root => "$VAR1".toList
  | .target p => '$' :: '\x7b' :: p.text ++ ['\x7d']
  | .item p index => p.text ++ p.arrow ++ '[' :: (Nat.toDigits 10 index) ++ [']']
  | .entry p key => p.text ++ p.arrow ++ '\x7b' :: key ++ ['\x7d']

end Path

end Introspect.Perl
