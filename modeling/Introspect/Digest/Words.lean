/-! Messages as blocks of 32-bit words, for digests with a length of 64 bits at the end. -/
namespace Introspect.Digest

inductive ByteOrder where
  | big | little
deriving DecidableEq

namespace ByteOrder

def ofBytes : ByteOrder → List UInt8 → Nat
  | .big, bytes => bytes.foldl (fun n b => n * 256 + b.toNat) 0
  | .little, bytes => bytes.foldr (fun b n => n * 256 + b.toNat) 0

/-- The lowest `count` bytes of a number, the low one first. -/
def lowBytes : Nat → Nat → List UInt8
  | 0, _ => []
  | count + 1, n => UInt8.ofNat n :: lowBytes count (n / 256)

def toBytes (order : ByteOrder) (count n : Nat) : List UInt8 :=
  match order with
  | .little => lowBytes count n
  | .big => (lowBytes count n).reverse

end ByteOrder

/-- A message closed by a one bit, zeros up to eight bytes short of a whole block, and its length in
bits. -/
def pad (order : ByteOrder) (message : List UInt8) : List UInt8 :=
  let zeros := (119 - message.length % 64) % 64
  message ++ 0x80 :: List.replicate zeros 0 ++ order.toBytes 8 (message.length * 8 % Nat.pow 2 64)

/-- Cuts a list into parts of `size + 1` members, the last one possibly shorter. -/
def chunks {α : Type} (size : Nat) (xs : List α) : List (List α) :=
  match xs with
  | [] => []
  | x :: rest => (x :: rest.take size) :: chunks size (rest.drop size)
termination_by xs.length
decreasing_by simp only [List.length_drop, List.length_cons]; omega

def blocks (order : ByteOrder) (message : List UInt8) : List (List UInt32) :=
  (chunks 63 (pad order message)).map fun block =>
    (chunks 3 block).map fun word => UInt32.ofNat (order.ofBytes word)

def rotate (x : UInt32) (count : UInt32) : UInt32 := (x <<< count) ||| (x >>> (32 - count))

end Introspect.Digest
