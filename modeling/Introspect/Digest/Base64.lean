/-! Bytes written as base-64 text without padding. -/
namespace Introspect.Digest.Base64

def alphabet : List Char :=
  "ABCDEFGHIJKLMNOPQRSTUVWXYZabcdefghijklmnopqrstuvwxyz0123456789+/".toList

def letter (n : Nat) : Char := alphabet.getD (n % 64) 'A'

/-- Three bytes make four letters; one or two bytes at the end make two or three. -/
def encode : List UInt8 → List Char
  | a :: b :: c :: rest =>
    let n := a.toNat * 65536 + b.toNat * 256 + c.toNat
    letter (n / 262144) :: letter (n / 4096) :: letter (n / 64) :: letter n :: encode rest
  | [a, b] =>
    let n := a.toNat * 65536 + b.toNat * 256
    [letter (n / 262144), letter (n / 4096), letter (n / 64)]
  | [a] =>
    let n := a.toNat * 65536
    [letter (n / 262144), letter (n / 4096)]
  | [] => []

end Introspect.Digest.Base64
