/-! UTF-8 decoding that reports each ill-formed part. -/
namespace Introspect.Text.Utf8

/-- Between characters, or inside one: the bits read, the bytes still owed after the next one, and
the bounds of the next byte. -/
inductive State where
  | start
  | inside (bits owed lo hi : Nat)
deriving DecidableEq

/-- A byte between characters: a whole character, the start of a longer one, or an error. -/
def first (b : Nat) : State × List (Option Char) :=
  if b < 0x80 then (.start, [some (Char.ofNat b)])
  else if 0xC2 ≤ b ∧ b ≤ 0xDF then (.inside (b - 0xC0) 0 0x80 0xBF, [])
  else if b = 0xE0 then (.inside 0 1 0xA0 0xBF, [])
  else if b = 0xED then (.inside 0xD 1 0x80 0x9F, [])
  else if 0xE1 ≤ b ∧ b ≤ 0xEF then (.inside (b - 0xE0) 1 0x80 0xBF, [])
  else if b = 0xF0 then (.inside 0 2 0x90 0xBF, [])
  else if 0xF1 ≤ b ∧ b ≤ 0xF3 then (.inside (b - 0xF0) 2 0x80 0xBF, [])
  else if b = 0xF4 then (.inside 4 2 0x80 0x8F, [])
  else (.start, [none])

def step : State → Nat → State × List (Option Char)
  | .start, b => first b
  | .inside bits owed lo hi, b =>
    if lo ≤ b ∧ b ≤ hi then
      let bits := bits * 64 + (b - 0x80)
      match owed with
      | 0 => (.start, [some (Char.ofNat bits)])
      | owed + 1 => (.inside bits owed 0x80 0xBF, [])
    else
      let (state, out) := first b
      (state, none :: out)

/-- The characters of the bytes; `none` stands for a longest part that could begin a character but
does not become one, or for a byte that begins none. -/
def scan : State → List UInt8 → List (Option Char)
  | .start, [] => []
  | .inside .., [] => [none]
  | state, b :: rest =>
    let (state, out) := step state b.toNat
    out ++ scan state rest

/-- Each ill-formed part becomes one replacement character. -/
def decodeReplacing (bytes : List UInt8) : String :=
  String.ofList ((scan .start bytes).map (·.getD '\uFFFD'))

def decode? (bytes : List UInt8) : Option String :=
  ((scan .start bytes).mapM id).map String.ofList

def encode (s : String) : List UInt8 := s.toUTF8.toList

end Introspect.Text.Utf8
