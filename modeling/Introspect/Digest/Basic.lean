import Introspect.Digest.Sha1
import Introspect.Digest.Md5
import Introspect.Digest.Base64
import Introspect.Atom
/-!
Digests of what was fed to them, in three output formats. Taking the digest starts it anew; a format
that is refused leaves it as it is.
-/
namespace Introspect

inductive Algorithm where
  | sha1 | md5
deriving DecidableEq

namespace Algorithm

def name : Algorithm → String
  | .sha1 => "sha1"
  | .md5 => "md5"

def ofText? (s : String) : Option Algorithm :=
  match Text.upper s with
  | "SHA1" | "SHA-1" => some .sha1
  | "MD5" => some .md5
  | _ => none

def size : Algorithm → Nat
  | .sha1 => 20
  | .md5 => 16

def hash : Algorithm → List UInt8 → List UInt8
  | .sha1 => Digest.Sha1.hash
  | .md5 => Digest.Md5.hash

end Algorithm

inductive DigestFormat where
  | hex | base64 | binary
deriving DecidableEq

namespace DigestFormat

def ofText? (s : String) : Option DigestFormat :=
  match Text.lowerWord s with
  | "hex" => some .hex
  | "base64" => some .base64
  | "binary" => some .binary
  | _ => none

def hexText (bytes : List UInt8) : String :=
  String.ofList (bytes.flatMap fun b => Text.hex 2 b.toNat)

/-- Binary output is bytes, all other output is text. -/
def render (bytes : List UInt8) : DigestFormat → Atom
  | .hex => .text (hexText bytes)
  | .base64 => .text (String.ofList (Digest.Base64.encode bytes))
  | .binary => .bytes bytes

end DigestFormat

structure Digest where
  algorithm : Algorithm
  fed : List UInt8

namespace Digest

def ofAlgorithm (algorithm : Algorithm) : Digest := ⟨algorithm, []⟩

def update (d : Digest) (bytes : List UInt8) : Digest := { d with fed := d.fed ++ bytes }

/-- The bytes of the digest, and the digest started anew. -/
def digest (d : Digest) : List UInt8 × Digest :=
  (d.algorithm.hash d.fed, { d with fed := [] })

/-! ## Algorithms and formats by name -/

def algorithmOf (name : String) : Except Fault Algorithm :=
  (Algorithm.ofText? name).elim (.error (.badAlgorithm name)) .ok

def formatOf (name : String) : Except Fault DigestFormat :=
  (DigestFormat.ofText? name).elim (.error (.badDigestFormat name)) .ok

/-- The digest in an output format given by name, and the digest started anew. -/
def format (d : Digest) (name : String) : Except Fault (Atom × Digest) := do
  let format ← formatOf name
  let (bytes, d) := d.digest
  return (format.render bytes, d)

def checksum (bytes : List UInt8) (algorithm : Algorithm) (format : DigestFormat) : Atom :=
  format.render ((ofAlgorithm algorithm).update bytes).digest.1

end Digest

end Introspect
