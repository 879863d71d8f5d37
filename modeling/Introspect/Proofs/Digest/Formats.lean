import Introspect.Session.Services
import Introspect.Proofs.Dispatch.NativeText
/-!
The output formats of a digest. Hexadecimal digits are read back two at a time, base-64 letters four at a time once the
marks that fill up the last four are there again, so that a checksum in any format tells the bytes of the digest.
-/
namespace Introspect

namespace Digest

variable {n : Nat}

/-! ## Hexadecimal digits -/

/-- The value of a digit in either case. -/
def hexDigit? (c : Char) : Option Nat :=
  if c.isDigit then some (c.toNat - 48)
  else if 'a' ≤ c ∧ c ≤ 'f' then some (c.toNat - 87)
  else if 'A' ≤ c ∧ c ≤ 'F' then some (c.toNat - 55)
  else none

/-- The bytes that a text of digits stands for, two digits for each. -/
def readHex? : List Char → Option (List UInt8)
  | [] => some []
  | [_] => none
  | high :: low :: rest => do
    let byte := 16 * (← hexDigit? high) + (← hexDigit? low)
    return UInt8.ofNat byte :: (← readHex? rest)

theorem hexDigit?_digitChar (h : n < 16) : hexDigit? n.digitChar = some n := by
  revert n
  decide

theorem hex_two (h : n < 256) : Text.hex 2 n = [(n / 16).digitChar, (n % 16).digitChar] := by
  have hhigh : n / 16 < 16 := by omega
  rw [Text.hex, Nat.toDigits_eq_if (by decide)]
  split
  · rename_i hsmall
    rw [Nat.div_eq_of_lt hsmall, Nat.mod_eq_of_lt hsmall]
    rfl
  · rw [Nat.toDigits_of_lt_base hhigh]
    rfl

theorem readHex?_hex (bytes : List UInt8) : readHex? (bytes.flatMap fun b => Text.hex 2 b.toNat) = some bytes := by
  induction bytes with
  | nil => rfl
  | cons b rest ih =>
      have hlt : b.toNat < 256 := b.toNat_lt
      have hvalue : 16 * (b.toNat / 16) + b.toNat % 16 = b.toNat := by omega
      rw [List.flatMap_cons, hex_two hlt]
      simp only [List.cons_append, List.nil_append, readHex?, ih]
      rw [hexDigit?_digitChar (by omega), hexDigit?_digitChar (by omega)]
      change some (UInt8.ofNat (16 * (b.toNat / 16) + b.toNat % 16) :: rest) = some (b :: rest)
      rw [hvalue, UInt8.ofNat_toNat]

/-! ## Base-64 letters -/

namespace Base64

def mark : Char := '='

/-- The letters with the marks that fill up the last four. -/
def padded (cs : List Char) : List Char := cs ++ List.replicate ((4 - cs.length % 4) % 4) mark

def value? (c : Char) : Option Nat := alphabet.idxOf? c

/-- The number that letters stand for, six bits by each. -/
def number? (cs : List Char) : Option Nat := cs.foldlM (fun n c => (value? c).map (64 * n + ·)) 0

/-- The lowest `count` bytes of a number, the high one first. -/
def lowest (count n : Nat) : List UInt8 := ByteOrder.big.toBytes count n

/-- Four letters stand for three bytes. At the end a mark stands for six bits that are not there: three letters stand
for two bytes, two letters for one. -/
def decode? : List Char → Option (List UInt8)
  | [] => some []
  | a :: b :: c :: d :: rest =>
    if d = mark then
      if rest ≠ [] then none
      else if c = mark then (number? [a, b]).map fun n => lowest 1 (n / 16)
      else (number? [a, b, c]).map fun n => lowest 2 (n / 4)
    else do return lowest 3 (← number? [a, b, c, d]) ++ (← decode? rest)
  | _ => none

theorem value?_letter (n : Nat) : value? (letter n) = some (n % 64) := by
  have hall : ∀ i < 64, value? (alphabet.getD i 'A') = some i := by decide
  exact hall (n % 64) (Nat.mod_lt n (by decide))

theorem letter_ne_mark (n : Nat) : letter n ≠ mark := by
  intro h
  have hmark : value? mark = none := by decide
  have hvalue := value?_letter n
  rw [h, hmark] at hvalue
  cases hvalue

theorem number?_letters (ns : List Nat) : number? (ns.map letter) = some (ns.foldl (fun n m => 64 * n + m % 64) 0) := by
  have hfrom (start : Nat) : (ns.map letter).foldlM (fun n c => (value? c).map (64 * n + ·)) start =
      some (ns.foldl (fun n m => 64 * n + m % 64) start) := by
    induction ns generalizing start with
    | nil => rfl
    | cons m rest ih =>
        rw [List.map_cons, List.foldlM_cons, value?_letter]
        exact ih _
  exact hfrom 0

theorem lowest_succ (count n : Nat) (b : UInt8) : lowest (count + 1) (n * 256 + b.toNat) = lowest count n ++ [b] := by
  have hlt : b.toNat < 256 := b.toNat_lt
  have hlow : UInt8.ofNat (n * 256 + b.toNat) = b := by
    refine UInt8.toNat_inj.mp ?_
    rw [UInt8.toNat_ofNat']
    omega
  have hhigh : (n * 256 + b.toNat) / 256 = n := by omega
  rw [lowest, ByteOrder.toBytes, ByteOrder.lowBytes, hlow, hhigh, List.reverse_cons]
  rfl

theorem lowest_one (a : UInt8) : lowest 1 a.toNat = [a] := by
  have h := lowest_succ 0 0 a
  rw [Nat.zero_mul, Nat.zero_add, Nat.zero_add] at h
  exact h

theorem lowest_two (a b : UInt8) : lowest 2 (a.toNat * 256 + b.toNat) = [a, b] := by
  rw [lowest_succ, lowest_one]
  rfl

theorem lowest_three (a b c : UInt8) : lowest 3 (a.toNat * 65536 + b.toNat * 256 + c.toNat) = [a, b, c] := by
  have hsplit : a.toNat * 65536 + b.toNat * 256 = (a.toNat * 256 + b.toNat) * 256 := by omega
  rw [hsplit, lowest_succ, lowest_two]
  rfl

theorem padded_four (a b c d : Char) (cs : List Char) : padded (a :: b :: c :: d :: cs) = a :: b :: c :: d :: padded cs := by
  have hlength : (a :: b :: c :: d :: cs).length % 4 = cs.length % 4 := by
    simp only [List.length_cons]
    omega
  rw [padded, hlength, padded]
  rfl

theorem decode?_one (a : UInt8) : decode? (padded (encode [a])) = some [a] := by
  have hlt : a.toNat < 256 := a.toNat_lt
  have hvalue : (64 * (64 * 0 + a.toNat * 65536 / 262144 % 64) + a.toNat * 65536 / 4096 % 64) / 16 = a.toNat := by omega
  change (number? ([_, _].map letter)).map (fun n => lowest 1 (n / 16)) = some [a]
  rw [number?_letters, Option.map_some, List.foldl_cons, List.foldl_cons, List.foldl_nil, hvalue, lowest_one]

theorem decode?_two (a b : UInt8) : decode? (padded (encode [a, b])) = some [a, b] := by
  have ha : a.toNat < 256 := a.toNat_lt
  have hb : b.toNat < 256 := b.toNat_lt
  have hvalue : (64 * (64 * (64 * 0 + (a.toNat * 65536 + b.toNat * 256) / 262144 % 64) +
      (a.toNat * 65536 + b.toNat * 256) / 4096 % 64) + (a.toNat * 65536 + b.toNat * 256) / 64 % 64) / 4 =
        a.toNat * 256 + b.toNat := by omega
  change decode? [letter _, letter _, letter _, mark] = some [a, b]
  rw [decode?, if_pos rfl, if_neg (not_not.mpr rfl), if_neg (letter_ne_mark _)]
  change (number? ([_, _, _].map letter)).map (fun n => lowest 2 (n / 4)) = some [a, b]
  rw [number?_letters, Option.map_some, List.foldl_cons, List.foldl_cons, List.foldl_cons, List.foldl_nil, hvalue, lowest_two]

theorem number?_three (a b c : UInt8) {n : Nat} (h : n = a.toNat * 65536 + b.toNat * 256 + c.toNat) :
    number? [letter (n / 262144), letter (n / 4096), letter (n / 64), letter n] = some n := by
  have ha : a.toNat < 256 := a.toNat_lt
  have hb : b.toNat < 256 := b.toNat_lt
  have hc : c.toNat < 256 := c.toNat_lt
  have hvalue : 64 * (64 * (64 * (64 * 0 + n / 262144 % 64) + n / 4096 % 64) + n / 64 % 64) + n % 64 = n := by omega
  change number? ([_, _, _, _].map letter) = some n
  rw [number?_letters, List.foldl_cons, List.foldl_cons, List.foldl_cons, List.foldl_cons, List.foldl_nil, hvalue]

theorem decode?_four {a b c d : Char} {cs : List Char} {bytes : List UInt8} (hd : d ≠ mark)
    (hnumber : number? [a, b, c, d] = some n) (hrest : decode? cs = some bytes) :
    decode? (a :: b :: c :: d :: cs) = some (lowest 3 n ++ bytes) := by
  rw [decode?, if_neg hd, hnumber, hrest]
  rfl

/-- The letters of bytes, filled up, are read back as the bytes. -/
theorem decode?_padded_encode (bytes : List UInt8) : decode? (padded (encode bytes)) = some bytes := by
  -- the letters come three bytes at a time, so the induction goes by the groups of the encoder
  induction bytes using encode.induct with
  | case1 a b c rest ih =>
      obtain ⟨n, hn⟩ : ∃ n, n = a.toNat * 65536 + b.toNat * 256 + c.toNat := ⟨_, rfl⟩
      have hread := decode?_four (letter_ne_mark n) (number?_three a b c hn) ih
      rw [hn, lowest_three, ← hn] at hread
      simp only [encode, ← hn, padded_four]
      exact hread
  | case2 a b => exact decode?_two a b
  | case3 a => exact decode?_one a
  | case4 => rfl

end Base64

end Digest

/-! ## Outputs -/

namespace DigestFormat

/-- The bytes that an output in a format stands for. -/
def read? : DigestFormat → Atom → Option (List UInt8)
  | .hex, .text s => Digest.readHex? s.toList
  | .base64, .text s => Digest.Base64.decode? (Digest.Base64.padded s.toList)
  | .binary, .bytes b => some b
  | _, _ => none

theorem read?_render (f : DigestFormat) (bytes : List UInt8) : f.read? (f.render bytes) = some bytes := by
  cases f with
  | hex =>
      rw [render, read?, hexText, String.toList_ofList]
      exact Digest.readHex?_hex bytes
  | base64 =>
      rw [render, read?, String.toList_ofList]
      exact Digest.Base64.decode?_padded_encode bytes
  | binary => rfl

theorem render_inj (f : DigestFormat) {bytes bytes' : List UInt8} : f.render bytes = f.render bytes' ↔ bytes = bytes' := by
  constructor
  · intro h
    have hread := congrArg f.read? h
    rw [read?_render, read?_render] at hread
    exact Option.some.inj hread
  · exact congrArg f.render

end DigestFormat

/-! ## Checksums -/

namespace Digest

variable {name : String} {a : Algorithm} {f : DigestFormat}

theorem algorithmOf_of_some (h : Algorithm.ofText? name = some a) : algorithmOf name = .ok a := by
  rw [algorithmOf, h]
  rfl

theorem formatOf_of_some (h : DigestFormat.ofText? name = some f) : formatOf name = .ok f := by
  rw [formatOf, h]
  rfl

theorem formatOf_of_none (h : DigestFormat.ofText? name = none) : formatOf name = .error (.badDigestFormat name) := by
  rw [formatOf, h]
  rfl

end Digest

namespace Session

open World

variable {w b : World} {r : Ref} {algorithm format : String} {a : Algorithm} {f : DigestFormat}

/-- What an object feeds to a digest. -/
def fedBy (w : World) (r : Ref) : Except Fault (List UInt8) :=
  match w.body r with
  | .atom (.text s) => .ok (Text.Utf8.encode s)
  | .atom (.bytes b) | .byteArray b => .ok b
  | _ => .error .typeError

theorem run_bytesOf (w : World) (r : Ref) : bytesOf r w = Act.liftExcept (fedBy w r) w := by
  rw [bytesOf, run_get, fedBy]
  cases w.body r with
  | atom a => cases a <;> rfl
  | _ => rfl

theorem steady_bytesOf (hr : b.Has r) : b.Steady (bytesOf r) (fedBy b r) := by
  refine .congr (fun v hv => ?_) (steady_liftExcept b (fedBy b r))
  rw [run_bytesOf, fedBy, hv.grows.body hr, fedBy]

/-- The checksum of what is fed, by an algorithm and in a format given by name. -/
def checksumOf (fed : Except Fault (List UInt8)) (algorithm format : String) : Except Fault Atom := do
  let f ← Digest.formatOf format
  let a ← Digest.algorithmOf algorithm
  return Digest.checksum (← fed) a f

theorem steady_checksum {ra rf : Ref} (hd : 2 ≤ b.nesting) (hr : b.Has r) (ha : b.IsOrdinary ra (.text algorithm))
    (hf : b.IsOrdinary rf (.text format)) : b.Steady (checksum r ra rf) (checksumOf (fedBy b r) algorithm format) := by
  refine (Dispatch.steady_textOf_text hd hf).bind (g := fun _ => checksumOf (fedBy b r) algorithm format) fun s hs => ?_
  cases hs
  refine (steady_liftExcept b _).bind fun f _ => ?_
  refine (Dispatch.steady_textOf_text hd ha).bind
    (g := fun _ => do
      let a ← Digest.algorithmOf algorithm
      return Digest.checksum (← fedBy b r) a f) fun s hs => ?_
  cases hs
  refine (steady_liftExcept b _).bind fun a _ => ?_
  exact (steady_bytesOf hr).bind fun bytes _ => .pure b _

/-- The checksum that a world answers for data, by an algorithm and in a format given by name. -/
def checksumIn (w : World) (r : Ref) (algorithm format : String) : Option Atom :=
  World.answered (checksum r (textRef algorithm) (textRef format)) w

theorem checksumIn_eq (hd : 2 ≤ w.nesting) (hr : w.Has r) (ha : Algorithm.ofText? algorithm = some a)
    (hf : DigestFormat.ofText? format = some f) :
    checksumIn w r algorithm format = (World.answered (bytesOf r) w).map fun bytes => f.render (a.hash bytes) := by
  have htext (s : String) : w.IsOrdinary (textRef s) (.text s) := .atom w (.text s)
  obtain ⟨u, -, hrun⟩ := steady_checksum hd hr (htext algorithm) (htext format) w (.refl w)
  have hof : checksumOf (fedBy w r) algorithm format = (fun bytes => f.render (a.hash bytes)) <$> fedBy w r := by
    rw [checksumOf, Digest.formatOf_of_some hf, Digest.algorithmOf_of_some ha]
    rfl
  rw [checksumIn, World.answered, World.answered, hrun, hof, run_bytesOf]
  cases fedBy w r <;> rfl

/-- The three formats carry one digest. Each output is read back as the bytes of the binary one, the letters of base 64
once they are filled up again; so two checksums in one format are equal exactly if they are in another. -/
theorem checksums_carry_digest (hd : 2 ≤ w.nesting) (ha : Algorithm.ofText? algorithm = some a) :
    (∀ r bytes, w.Has r → World.answered (bytesOf r) w = some bytes →
      checksumIn w r algorithm "binary" = some (.bytes (a.hash bytes)) ∧
      ∀ format f, DigestFormat.ofText? format = some f →
        ∃ output, checksumIn w r algorithm format = some output ∧ f.read? output = some (a.hash bytes)) ∧
    ∀ r r' format format' f f', w.Has r → w.Has r' →
      DigestFormat.ofText? format = some f → DigestFormat.ofText? format' = some f' →
        (checksumIn w r algorithm format = checksumIn w r' algorithm format ↔
          checksumIn w r algorithm format' = checksumIn w r' algorithm format') := by
  constructor
  · intro r bytes hr hbytes
    have hbinary : DigestFormat.ofText? "binary" = some .binary := by decide
    constructor
    · rw [checksumIn_eq hd hr ha hbinary, hbytes]
      rfl
    · intro format f hf
      rw [checksumIn_eq hd hr ha hf, hbytes]
      exact ⟨_, rfl, f.read?_render _⟩
  · intro r r' format format' f f' hr hr' hf hf'
    have hsame (f : DigestFormat) : ∀ x y : Option (List UInt8),
        x.map (fun bytes => f.render (a.hash bytes)) = y.map (fun bytes => f.render (a.hash bytes)) ↔
          x.map a.hash = y.map a.hash := by
      intro x y
      cases x <;> cases y <;> simp [f.render_inj]
    rw [checksumIn_eq hd hr ha hf, checksumIn_eq hd hr' ha hf, checksumIn_eq hd hr ha hf', checksumIn_eq hd hr' ha hf',
      hsame f, hsame f']

theorem checksums_carry_digest_snowman :
    2 ≤ Session.initial.world.nesting ∧ Algorithm.ofText? "SHA-1" = some .sha1 ∧
      ∃ output, checksumIn Session.initial.world (textRef "☃") "SHA-1" "base64" = some output ∧
        DigestFormat.base64.read? output = some (Digest.Sha1.hash (Text.Utf8.encode "☃")) := by
  have hd : 2 ≤ Session.initial.world.nesting := by decide
  have ha : Algorithm.ofText? "SHA-1" = some .sha1 := by decide
  refine ⟨hd, ha, ?_⟩
  have hbytes : World.answered (bytesOf (textRef "☃")) Session.initial.world = some (Text.Utf8.encode "☃") := rfl
  exact ((checksums_carry_digest hd ha).1 (textRef "☃") _ trivial hbytes).2 "base64" .base64 (by decide)

end Session

end Introspect
