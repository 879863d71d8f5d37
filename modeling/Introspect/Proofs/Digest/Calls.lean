import Mathlib.Data.List.DropRight
import Introspect.Proofs.Digest.Formats
import Introspect.Proofs.Registry.Naming
/-!
Calls on a digest, one after the other. A digest and an output in a valid format complete it; what they answer is the hash
of all that was given since the last such call, in whatever parts it was given.
-/
namespace Introspect

open World

/-! ## Joined texts -/

namespace Text.Utf8

theorem toList_loop (bytes : ByteArray) (i : Nat) (found : List UInt8) :
    ByteArray.toList.loop bytes i found = found.reverse ++ bytes.data.toList.drop i := by
  induction i, found using ByteArray.toList.loop.induct bytes with
  | case1 i found hlt ih =>
      have hi : i < bytes.data.toList.length := hlt
      have hget : bytes.get! i = bytes.data.toList[i] := getElem!_pos bytes.data i hlt
      rw [ByteArray.toList.loop, if_pos hlt, ih, List.drop_eq_getElem_cons hi, hget, List.reverse_cons, List.append_assoc]
      rfl
  | case2 i found hge =>
      have hi : bytes.data.toList.length ≤ i := Nat.le_of_not_lt hge
      rw [ByteArray.toList.loop, if_neg hge, List.drop_eq_nil_of_le hi, List.append_nil]

theorem encode_eq (s : String) : encode s = s.toByteArray.data.toList := toList_loop s.toByteArray 0 []

theorem encode_append (s t : String) : encode (s ++ t) = encode s ++ encode t := by
  rw [encode_eq, encode_eq, encode_eq, String.toByteArray_append, ByteArray.data_append, Array.toList_append]

theorem encode_join (texts : List String) : encode (String.join texts) = texts.flatMap encode := by
  induction texts with
  | nil => exact encode_eq ""
  | cons s rest ih => rw [String.join_cons, encode_append, ih, List.flatMap_cons]

end Text.Utf8

/-! ## Calls -/

namespace Digest

/-- What is given to a digest at once. -/
inductive Chunk where
  | text (s : String)
  | bytes (content : List UInt8)

namespace Chunk

def atom : Chunk → Atom
  | .text s => .text s
  | .bytes content => .bytes content

def fed : Chunk → List UInt8
  | .text s => Text.Utf8.encode s
  | .bytes content => content

end Chunk

inductive Call where
  | update (chunk : Chunk)
  | digest
  | format (name : String)

namespace Call

def command (d : String) : Call → Session.Command
  | .update chunk => .digest (.update d (.atom chunk.atom))
  | .digest => .digest (.digest d)
  | .format name => .digest (.format d (.text name))

/-- A format that is refused does not complete the digest. -/
def completes : Call → Bool
  | .update _ => false
  | .digest => true
  | .format name => (DigestFormat.ofText? name).isSome

def chunk? : Call → Option Chunk
  | .update chunk => some chunk
  | _ => none

end Call

/-- The chunks given after the last call that completed the digest. -/
def sinceCompletion (calls : List Call) : List Chunk := (calls.rtakeWhile (!·.completes)).filterMap Call.chunk?

def given (calls : List Call) : List UInt8 := (sinceCompletion calls).flatMap Chunk.fed

variable {calls : List Call} {c : Call} {chunk : Chunk}

theorem given_completes (h : c.completes = true) : given (calls ++ [c]) = [] := by
  rw [given, sinceCompletion, List.rtakeWhile_concat, if_neg (by rw [h]; decide)]
  rfl

theorem given_keeps (h : c.completes = false) : given (calls ++ [c]) = given calls ++ c.chunk?.toList.flatMap Chunk.fed := by
  rw [given, sinceCompletion, List.rtakeWhile_concat, if_pos (by rw [h]; decide), List.filterMap_append, List.flatMap_append]
  cases hc : c.chunk? <;> simp [given, sinceCompletion, hc]

/-- Texts may be split anywhere. -/
theorem given_texts {texts : List String} (h : sinceCompletion calls = texts.map .text) :
    given calls = (Chunk.text (String.join texts)).fed := by
  rw [given, h, List.flatMap_map, Chunk.fed, Text.Utf8.encode_join]
  rfl

end Digest

/-! ## Sessions -/

namespace Session

open Digest

variable {α : Type} {s : Session} {w : World} {d algorithm name : String} {a : Algorithm} {f : DigestFormat}
  {fed : List UInt8} {chunk : Chunk}

theorem run_lift {x : Act α} {v : World} {y : α} (h : x s.world = .ok y v) :
    (liftM x : Step α) s = .ok y { s with world := v } := by
  change Session.act x s = _
  rw [Session.act, h]

theorem run_lift_error {x : Act α} {v : World} {fault : Fault} (h : x s.world = .error fault v) :
    (liftM x : Step α) s = .error fault { s with world := v } := by
  change Session.act x s = _
  rw [Session.act, h]

theorem build_atom (s : Session) (x : Atom) :
    ∃ v r, s.world.Leads v ∧ Literal.build (.atom x) s = .ok r { s with world := v } ∧ v.IsOrdinary r x := by
  obtain ⟨v, r, hv, hrun, hr⟩ := makes_atom s.world x s.world (.refl _)
  rw [Literal.build]
  exact ⟨v, r, hv, run_lift hrun, hr⟩

theorem textOf_built (hd : 2 ≤ s.world.nesting) {r : Ref} {t : String} (hr : s.world.IsOrdinary r (.text t)) :
    ∃ v, s.world.Leads v ∧ (liftM (Dispatch.ask.textOf r) : Step String) s = .ok t { s with world := v } := by
  obtain ⟨v, hv, hrun⟩ := Dispatch.steady_textOf_text hd hr s.world (.refl _)
  exact ⟨v, hv, run_lift hrun⟩

theorem fedBy_chunk {r : Ref} (h : w.IsOrdinary r chunk.atom) : fedBy w r = .ok chunk.fed := by
  rw [fedBy, h.body]
  cases chunk <;> rfl

theorem known_ok {pairs : List (String × α)} {x : α} (h : pairs.lookup name = some x) : known pairs name s = .ok x s := by
  rw [known, h]
  rfl

/-- How an output stands in an answer. -/
def output (x : Atom) : Report := Report.ofAtom (World.atomClass x) x

theorem ofValue_render (hd : 2 ≤ w.nesting) (f : DigestFormat) (bytes : List UInt8) :
    Report.ofValue (.atom (f.render bytes)) w = .ok (output (f.render bytes)) w := by
  obtain ⟨depth, hdepth⟩ := Nat.exists_eq_add_of_le' hd
  rw [Report.ofValue, run_get, hdepth]
  cases f <;> rfl

theorem answer_of_ok {c : Command} {report : Report} {t : Session} (h : perform c s = .ok report t) :
    s.answer c = (report, t.swept) := by
  rw [answer, h]

theorem answer_of_error {c : Command} {fault : Fault} {t : Session} (h : perform c s = .error fault t) :
    s.answer c = (.ofFault fault, t.swept) := by
  rw [answer, h]

/-! ## One call -/

theorem answer_update (h : s.digests.lookup d = some ⟨a, fed⟩) (chunk : Chunk) : ∃ v,
    s.answer ((Call.update chunk).command d) =
      (.bool true, swept { s with world := v, digests := Pairs.put d ⟨a, fed ++ chunk.fed⟩ s.digests }) := by
  obtain ⟨v, r, -, hbuild, hr⟩ := build_atom s chunk.atom
  have hbytes : bytesOf r v = .ok chunk.fed v := by
    rw [run_bytesOf, fedBy_chunk hr]
    rfl
  refine ⟨v, answer_of_ok ?_⟩
  change performDigest (.update d (.atom chunk.atom)) s = _
  rw [performDigest, run_get, run_bind_ok (known_ok h), run_bind_ok hbuild, run_bind_ok (run_lift hbytes)]
  rfl

theorem answer_digest (h : s.digests.lookup d = some ⟨a, fed⟩) :
    s.answer (Call.digest.command d) =
      (.ofBytes (a.hash fed), swept { s with digests := Pairs.put d ⟨a, []⟩ s.digests }) := by
  refine answer_of_ok ?_
  change performDigest (.digest d) s = _
  rw [performDigest, run_get, run_bind_ok (known_ok h)]
  rfl

/-- The name of a format is read first; what it names, or does not, decides on the rest of the call. -/
theorem run_format (hd : 2 ≤ s.world.nesting) (h : s.digests.lookup d = some ⟨a, fed⟩) (name : String) :
    ∃ v, v.nesting = s.world.nesting ∧ perform ((Call.format name).command d) s =
      (do
        let (x, next) ← Act.liftExcept ((⟨a, fed⟩ : Digest).format name)
        setDigest d next
        Report.ofValue (.atom x) : Step Report) { s with world := v } := by
  obtain ⟨v, r, hv, hbuild, hr⟩ := build_atom s (.text name)
  obtain ⟨u, hu, htext⟩ := textOf_built (s := { s with world := v }) (hv.nesting ▸ hd) hr
  refine ⟨u, hu.nesting.trans hv.nesting, ?_⟩
  change performDigest (.format d (.text name)) s = _
  rw [performDigest, run_get, run_bind_ok (known_ok h), Literal.text, run_bind_ok hbuild, run_bind_ok htext]

theorem answer_format (hd : 2 ≤ s.world.nesting) (h : s.digests.lookup d = some ⟨a, fed⟩)
    (hf : DigestFormat.ofText? name = some f) : ∃ v, s.answer ((Call.format name).command d) =
      (output (f.render (a.hash fed)), swept { s with world := v, digests := Pairs.put d ⟨a, []⟩ s.digests }) := by
  obtain ⟨v, hv, hrun⟩ := run_format hd h name
  have hformat : Act.liftExcept ((⟨a, fed⟩ : Digest).format name) v = .ok (f.render (a.hash fed), ⟨a, []⟩) v := by
    rw [Digest.format, formatOf_of_some hf]
    rfl
  refine ⟨v, answer_of_ok ?_⟩
  rw [hrun, run_bind_ok (run_lift hformat)]
  exact run_lift (ofValue_render (hv ▸ hd) f _)

theorem answer_refused (hd : 2 ≤ s.world.nesting) (h : s.digests.lookup d = some ⟨a, fed⟩)
    (hf : DigestFormat.ofText? name = none) : ∃ v, s.answer ((Call.format name).command d) =
      (.ofFault (.badDigestFormat name), swept { s with world := v }) := by
  obtain ⟨v, -, hrun⟩ := run_format hd h name
  have hformat : Act.liftExcept ((⟨a, fed⟩ : Digest).format name) v = .error (.badDigestFormat name) v := by
    rw [Digest.format, formatOf_of_none hf]
    rfl
  refine ⟨v, answer_of_error ?_⟩
  rw [hrun, run_bind_error (run_lift_error hformat)]

/-- The digest of what is given in one step. -/
def inOneStep (whole : Chunk) (algorithm name : String) : Command :=
  .digest (.checksum (.atom whole.atom) (.text algorithm) (.text name))

theorem run_inOneStep (hd : 2 ≤ s.world.nesting) (whole : Chunk) (algorithm name : String) :
    ∃ v, v.nesting = s.world.nesting ∧ perform (inOneStep whole algorithm name) s =
      (do
        let x ← Act.liftExcept (checksumOf (.ok whole.fed) algorithm name)
        Report.ofValue (.atom x) : Step Report) { s with world := v } := by
  obtain ⟨v₁, data, hv₁, hdata, ho₁⟩ := build_atom s whole.atom
  obtain ⟨v₂, ra, hv₂, halgorithm, ho₂⟩ := build_atom { s with world := v₁ } (.text algorithm)
  obtain ⟨v₃, rf, hv₃, hformat, ho₃⟩ := build_atom { s with world := v₂ } (.text name)
  have ho₁ := ho₁.grows (hv₂.trans hv₃).grows
  have ho₂ := ho₂.grows hv₃.grows
  have hnesting : v₃.nesting = s.world.nesting := hv₃.nesting.trans (hv₂.nesting.trans hv₁.nesting)
  obtain ⟨u, hu, hrun⟩ := steady_checksum (hnesting ▸ hd) ho₁.has ho₂ ho₃ v₃ (.refl _)
  rw [fedBy_chunk ho₁] at hrun
  refine ⟨u, hu.nesting.trans hnesting, ?_⟩
  change performDigest (.checksum (.atom whole.atom) (.text algorithm) (.text name)) s = _
  rw [performDigest, run_bind_ok hdata, Literal.text, Literal.text, run_bind_ok halgorithm, run_bind_ok hformat]
  cases hres : checksumOf (.ok whole.fed) algorithm name with
  | ok x =>
      rw [hres] at hrun
      rw [run_bind_ok (run_lift hrun)]
      rfl
  | error fault =>
      rw [hres] at hrun
      rw [run_bind_error (run_lift_error hrun)]
      rfl

theorem answer_inOneStep (hd : 2 ≤ s.world.nesting) (whole : Chunk) (ha : Algorithm.ofText? algorithm = some a)
    (hf : DigestFormat.ofText? name = some f) :
    (s.answer (inOneStep whole algorithm name)).1 = output (f.render (a.hash whole.fed)) := by
  obtain ⟨v, hv, hrun⟩ := run_inOneStep hd whole algorithm name
  have hchecksum : Act.liftExcept (checksumOf (.ok whole.fed) algorithm name) v = .ok (f.render (a.hash whole.fed)) v := by
    rw [checksumOf, formatOf_of_some hf, algorithmOf_of_some ha]
    rfl
  rw [run_bind_ok (run_lift hchecksum), run_lift (ofValue_render (hv ▸ hd) f _)] at hrun
  rw [answer_of_ok hrun]

theorem answer_inOneStep_refused (hd : 2 ≤ s.world.nesting) (whole : Chunk) (hf : DigestFormat.ofText? name = none) :
    (s.answer (inOneStep whole algorithm name)).1 = .ofFault (.badDigestFormat name) := by
  obtain ⟨v, -, hrun⟩ := run_inOneStep hd whole algorithm name
  have hchecksum : Act.liftExcept (checksumOf (.ok whole.fed) algorithm name) v = .error (.badDigestFormat name) v := by
    rw [checksumOf, formatOf_of_none hf]
    rfl
  rw [run_bind_error (run_lift_error hchecksum)] at hrun
  rw [answer_of_error hrun]

/-! ## All calls -/

theorem lookup_swept (s : Session) (x : Digest) {v : World} :
    (swept { s with world := v, digests := Pairs.put d x s.digests }).digests.lookup d = some x := by
  change (Pairs.put d x s.digests).lookup d = some x
  rw [Pairs.lookup_put, if_pos rfl]

/-- A call leaves what was given and not yet completed, whether it is refused or not. -/
theorem lookup_answer {calls : List Call} (hd : 2 ≤ s.world.nesting) (h : s.digests.lookup d = some ⟨a, given calls⟩)
    (c : Call) : (s.answer (c.command d)).2.digests.lookup d = some ⟨a, given (calls ++ [c])⟩ := by
  cases c with
  | update chunk =>
      obtain ⟨v, hanswer⟩ := answer_update h chunk
      rw [hanswer, lookup_swept, given_keeps rfl]
      simp [Call.chunk?]
  | digest =>
      rw [answer_digest h, given_completes rfl]
      exact lookup_swept s _
  | format name =>
      cases hf : DigestFormat.ofText? name with
      | some f =>
          obtain ⟨v, hanswer⟩ := answer_format hd h hf
          rw [hanswer, lookup_swept, given_completes (by rw [Call.completes, hf]; rfl)]
      | none =>
          obtain ⟨v, hanswer⟩ := answer_refused hd h hf
          rw [hanswer, given_keeps (by rw [Call.completes, hf]; rfl)]
          change s.digests.lookup d = some ⟨a, given calls ++ []⟩
          rw [List.append_nil, h]

theorem lookup_new (hd : 2 ≤ s.world.nesting) (ha : Algorithm.ofText? algorithm = some a) :
    (s.answer (.digest (.new d (.text algorithm)))).2.digests.lookup d = some ⟨a, []⟩ := by
  obtain ⟨v, r, hv, hbuild, hr⟩ := build_atom s (.text algorithm)
  obtain ⟨u, -, htext⟩ := textOf_built (s := { s with world := v }) (hv.nesting ▸ hd) hr
  have halgorithm : Act.liftExcept (algorithmOf algorithm) u = .ok a u := by
    rw [algorithmOf_of_some ha]
    rfl
  have hrun : perform (.digest (.new d (.text algorithm))) s =
      .ok .null { s with world := u, digests := Pairs.put d ⟨a, []⟩ s.digests } := by
    change performDigest (.new d (.text algorithm)) s = _
    rw [performDigest, Literal.text, run_bind_ok hbuild, run_bind_ok htext, run_bind_ok (run_lift halgorithm)]
    rfl
  rw [answer_of_ok hrun]
  exact lookup_swept s _

/-- The session after a digest is made and called. -/
def afterCalls (s : Session) (d algorithm : String) (calls : List Call) : Session :=
  following (.digest (.new d (.text algorithm)) :: calls.map (·.command d)) s

theorem lookup_afterCalls (hs : s.Reachable) (ha : Algorithm.ofText? algorithm = some a) (d : String) (calls : List Call) :
    (s.afterCalls d algorithm calls).digests.lookup d = some ⟨a, given calls⟩ := by
  have hnesting {t : Session} (ht : t.Reachable) : 2 ≤ t.world.nesting := by
    rw [ht.nesting]
    decide
  induction calls using List.reverseRecOn with
  | nil => exact lookup_new (hnesting hs) ha
  | append_singleton calls c ih =>
      have hstep : s.afterCalls d algorithm (calls ++ [c]) = ((s.afterCalls d algorithm calls).answer (c.command d)).2 := by
        simp only [afterCalls, following, List.map_append, List.foldl_cons, List.foldl_append]
        rfl
      rw [hstep]
      exact lookup_answer (hnesting (hs.following _)) ih c

/-- What a session answers about a digest that was given some bytes. -/
structure DigestAnswers (s : Session) (d : String) (a : Algorithm) (fed : List UInt8) : Prop where
  update (chunk : Chunk) : (s.answer ((Call.update chunk).command d)).1 = .bool true
  digest : (s.answer (Call.digest.command d)).1 = .ofBytes (a.hash fed)
  format (name : String) (f : DigestFormat) (h : DigestFormat.ofText? name = some f) :
    (s.answer ((Call.format name).command d)).1 = output (f.render (a.hash fed))
  refused (name : String) (h : DigestFormat.ofText? name = none) :
    (s.answer ((Call.format name).command d)).1 = .ofFault (.badDigestFormat name) ∧
      (s.answer ((Call.format name).command d)).2.digests = s.digests
  digestInOneStep (whole : Chunk) (algorithm : String) (hfed : whole.fed = fed) (ha : Algorithm.ofText? algorithm = some a) :
    (s.answer (Call.digest.command d)).1 = (s.answer (inOneStep whole algorithm "binary")).1
  formatInOneStep (whole : Chunk) (algorithm : String) (hfed : whole.fed = fed) (ha : Algorithm.ofText? algorithm = some a)
    (name : String) : (s.answer ((Call.format name).command d)).1 = (s.answer (inOneStep whole algorithm name)).1

theorem digestAnswers_of_lookup (hd : 2 ≤ s.world.nesting) (h : s.digests.lookup d = some ⟨a, fed⟩) :
    s.DigestAnswers d a fed where
  update chunk := by
    obtain ⟨v, hanswer⟩ := answer_update h chunk
    rw [hanswer]
  digest := by rw [answer_digest h]
  format name f hf := by
    obtain ⟨v, hanswer⟩ := answer_format hd h hf
    rw [hanswer]
  refused name hf := by
    obtain ⟨v, hanswer⟩ := answer_refused hd h hf
    rw [hanswer]
    exact ⟨rfl, rfl⟩
  digestInOneStep whole algorithm hfed ha := by
    have hbinary : DigestFormat.ofText? "binary" = some .binary := by decide
    rw [answer_digest h, answer_inOneStep hd whole ha hbinary, hfed]
    rfl
  formatInOneStep whole algorithm hfed ha name := by
    cases hf : DigestFormat.ofText? name with
    | some f =>
        obtain ⟨v, hanswer⟩ := answer_format hd h hf
        rw [hanswer, answer_inOneStep hd whole ha hf, hfed]
    | none =>
        obtain ⟨v, hanswer⟩ := answer_refused hd h hf
        rw [hanswer, answer_inOneStep_refused hd whole hf]

/-- After any calls a digest is that of the chunks given since it was made or last completed. It is the one that all of them
have in one step, as one text if they are texts, wherever that was split. -/
theorem digest_calls (hs : s.Reachable) (ha : Algorithm.ofText? algorithm = some a) (d : String) (calls : List Call) :
    (s.afterCalls d algorithm calls).DigestAnswers d a (given calls) ∧
      ∀ texts, sinceCompletion calls = texts.map .text → (Chunk.text (String.join texts)).fed = given calls := by
  have hnesting : 2 ≤ (s.afterCalls d algorithm calls).world.nesting := by
    rw [afterCalls, (hs.following _).nesting]
    decide
  exact ⟨digestAnswers_of_lookup hnesting (lookup_afterCalls hs ha d calls), fun texts htexts => (given_texts htexts).symm⟩

/-- Two parts of a text, of several bytes each, with a refused format between them. -/
theorem digest_calls_refused_between : initial.Reachable ∧ Algorithm.ofText? "md5" = some .md5 ∧
    (initial.afterCalls "d" "md5" [.update (.text "☃"), .format "octal", .update (.text "é")]).DigestAnswers "d" .md5
      (Chunk.text "☃é").fed := by
  have hs : initial.Reachable := .refl
  have ha : Algorithm.ofText? "md5" = some .md5 := by decide
  obtain ⟨hanswers, hjoined⟩ := digest_calls hs ha "d" [.update (.text "☃"), .format "octal", .update (.text "é")]
  refine ⟨hs, ha, ?_⟩
  have htexts := hjoined ["☃", "é"] rfl
  rw [← htexts] at hanswers
  exact hanswers

end Session

end Introspect
