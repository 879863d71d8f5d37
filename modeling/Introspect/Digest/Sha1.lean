import Introspect.Digest.Words
/-! SHA-1 over whole messages. -/
namespace Introspect.Digest.Sha1

structure State where
  a : UInt32
  b : UInt32
  c : UInt32
  d : UInt32
  e : UInt32
deriving DecidableEq

def initial : State := ⟨0x67452301, 0xEFCDAB89, 0x98BADCFE, 0x10325476, 0xC3D2E1F0⟩

/-- The choice, parity and majority functions with their constants, twenty rounds each. -/
def mix (round : Nat) (s : State) : UInt32 :=
  if round < 20 then ((s.b &&& s.c) ||| ((s.b ^^^ 0xFFFFFFFF) &&& s.d)) + 0x5A827999
  else if round < 40 then (s.b ^^^ s.c ^^^ s.d) + 0x6ED9EBA1
  else if round < 60 then ((s.b &&& s.c) ||| (s.b &&& s.d) ||| (s.c &&& s.d)) + 0x8F1BBCDC
  else (s.b ^^^ s.c ^^^ s.d) + 0xCA62C1D6

def step (s : State) (round : Nat) (word : UInt32) : State :=
  ⟨rotate s.a 5 + mix round s + s.e + word, s.a, rotate s.b 30, s.c, s.d⟩

/-- Runs `count` rounds; `window` holds the words of the sixteen rounds to come. -/
def rounds : Nat → Nat → List UInt32 → State → State
  | 0, _, _, s => s
  | count + 1, round, window, s =>
    match window with
    | [] => s
    | word :: rest =>
      let next := rotate (word ^^^ rest.getD 1 0 ^^^ rest.getD 7 0 ^^^ rest.getD 12 0) 1
      rounds count (round + 1) (rest ++ [next]) (step s round word)

def compress (s : State) (block : List UInt32) : State :=
  let t := rounds 80 0 block s
  ⟨s.a + t.a, s.b + t.b, s.c + t.c, s.d + t.d, s.e + t.e⟩

def hash (message : List UInt8) : List UInt8 :=
  let s := (blocks .big message).foldl compress initial
  [s.a, s.b, s.c, s.d, s.e].flatMap fun w => ByteOrder.big.toBytes 4 w.toNat

end Introspect.Digest.Sha1
