import Introspect.Proofs.Perl.Proper
import Introspect.Proofs.Reflect.Order
/-!
Paths as Perl follows them. A path that a dump holds in place of an object leads from the root of the dump to
that object and to no other.
-/
namespace Introspect.Perl

open World

/-! ## Following a path -/

noncomputable def compactText (w : World) (r : Ref) : List Char :=
  match w.answer (encode r 0) with
  | .ok text => text.toList
  | .error _ => []

noncomputable def literalText (w : World) (k : Ref) : List Char :=
  match w.answer (literal k) with
  | .ok text => text
  | .error _ => []

def content? (w : World) (r : Ref) : Option Ref :=
  match w.body r with
  | .box c _ => some c
  | _ => none

/-- The elements of an array as they are written; those of a set come in the order of their compact texts. -/
noncomputable def elements? (w : World) (r : Ref) : Option (List Ref) :=
  match w.body r with
  | .members items => some ((byText (items.map fun c => (compactText w c, c))).map (·.2))
  | _ => w.items? r

/-- The entries of a mapping or the attributes of an object, under their key literals. -/
noncomputable def entries? (w : World) (r : Ref) : Option (List (List Char × Ref)) :=
  match w.body r with
  | .mapping entries => some (entries.map fun e => (literalText w e.1, e.2))
  | _ => if w.isObject r then some ((w.storage r).map fun e => (quote e.1.toList, e.2)) else none

/-- The object that a path leads to from a root. -/
noncomputable def follow (w : World) (root : Ref) : Path → Option Ref
  | .root => some root
  | .target p => (follow w root p).bind (content? w)
  | .item p index => (follow w root p).bind fun r => (elements? w r).bind (·[index]?)
  | .entry p key => (follow w root p).bind fun r => (entries? w r).bind (·.lookup key)

/-- The keys of mappings are texts, and different ones in each mapping. -/
structure TextKeys (w : World) (S : List Ref) : Prop where
  texts : ∀ r ∈ S, ∀ entries, w.body r = .mapping entries → ∀ e ∈ entries, ∃ s, w.body e.1 = .atom (.text s)
  distinct : ∀ r ∈ S, ∀ entries, w.body r = .mapping entries →
    entries.Pairwise fun e e' => ¬ w.SameKey e.1 e'.1

variable {w : World} {S : List Ref} {r c root k : Ref} {p q : Path} {entries : List (Ref × Ref)}
  {pairs : List (List Char × Ref)}

theorem lookup_of_mem {key : List Char} (h : (pairs.map (·.1)).Nodup) (hc : (key, c) ∈ pairs) :
    pairs.lookup key = some c := by
  induction pairs with
  | nil => cases hc
  | cons y rest ih =>
      obtain ⟨hnew, hrest⟩ := List.nodup_cons.mp h
      rw [List.lookup_cons]
      rcases List.mem_cons.mp hc with rfl | hc
      · simp
      · have hne : key ≠ y.1 := fun he => hnew (List.mem_map.mpr ⟨(key, c), hc, he⟩)
        rw [beq_eq_false_iff_ne.mpr hne]
        exact ih hrest hc

theorem settles_literal_text {s : String} (hk : w.Has k) (hb : w.body k = .atom (.text s)) :
    w.Settles (literal k) (.ok (quote s.toList)) := by
  refine .of_steady fun n => .get fun v hv => .get fun u hu => ?_
  have ha : u.atom? k = some (.text s) := by
    rw [((w.grows_limited n).trans (hv.grows.trans hu.grows)).atom? hk, atom?, hb]
  rw [ha]
  exact .pure u _

theorem literalText_text {s : String} (hk : w.Has k) (hb : w.body k = .atom (.text s)) :
    literalText w k = quote s.toList := by
  simp only [literalText, (settles_literal_text hk hb).answer_eq]

theorem sameKey_of_text {k' : Ref} {s : String} (hk : w.body k = .atom (.text s))
    (hk' : w.body k' = .atom (.text s)) : w.SameKey k k' := by
  refine ⟨1, ?_⟩
  simp [sameKey, hk, hk', Atom.equalValue, Atom.number?, Except.toOption]

theorem not_sameKey_of_text {k' : Ref} {s s' : String} (hk : w.body k = .atom (.text s))
    (hk' : w.body k' = .atom (.text s')) (h : s ≠ s') : ¬ w.SameKey k k' := by
  have hne : k ≠ k' := fun he => h (by rw [he, hk'] at hk; cases hk; rfl)
  rintro ⟨depth, hd⟩
  cases depth with
  | zero => exact hne (of_decide_eq_true hd)
  | succ depth =>
      simp [sameKey, hne, hk, hk', Atom.equalValue, Atom.number?, Except.toOption] at hd
      exact h hd

/-- The text that a value is. -/
def text? (w : World) (r : Ref) : Option String :=
  match w.body r with
  | .atom (.text s) => some s
  | _ => none

theorem body_of_text? {s : String} (h : text? w r = some s) : w.body r = .atom (.text s) := by
  unfold text? at h
  split at h
  · rename_i hb
    cases h
    exact hb
  · cases h

/-- The keys of a mapping are different texts. -/
def hasTextKeys (w : World) (r : Ref) : Bool :=
  match w.body r with
  | .mapping entries => entries.all (fun e => (text? w e.1).isSome) && decide (entries.map (text? w ·.1)).Nodup
  | _ => true

theorem textKeys_of_hasTextKeys (h : ∀ r ∈ S, hasTextKeys w r = true) : TextKeys w S := by
  have hsplit {r : Ref} {entries : List (Ref × Ref)} (hr : r ∈ S) (hb : w.body r = .mapping entries) :
      (∀ e ∈ entries, ∃ s, text? w e.1 = some s) ∧ (entries.map (text? w ·.1)).Nodup := by
    have hkeys := h r hr
    simp only [hasTextKeys, hb, Bool.and_eq_true, List.all_eq_true, decide_eq_true_eq] at hkeys
    exact hkeys.imp_left fun hall e he => Option.isSome_iff_exists.mp (hall e he)
  constructor
  · intro r hr entries hb e he
    obtain ⟨s, hs⟩ := (hsplit hr hb).1 e he
    exact ⟨s, body_of_text? hs⟩
  · intro r hr entries hb
    obtain ⟨htexts, hnodup⟩ := hsplit hr hb
    refine (List.pairwise_map.mp hnodup).imp_of_mem fun {e e'} he he' hne => ?_
    obtain ⟨s, hs⟩ := htexts e he
    obtain ⟨s', hs'⟩ := htexts e' he'
    exact not_sameKey_of_text (body_of_text? hs) (body_of_text? hs') fun hsame => hne (by rw [hs, hs', hsame])

theorem TextKeys.literal_eq (hK : TextKeys w S) (hG : Graph w S) (hr : r ∈ S) (hb : w.body r = .mapping entries)
    {e : Ref × Ref} (he : e ∈ entries) : ∃ s, w.body e.1 = .atom (.text s) ∧ literalText w e.1 = quote s.toList := by
  obtain ⟨s, hs⟩ := hK.texts r hr entries hb e he
  exact ⟨s, hs, literalText_text (hG.has _ (hG.key hr hb he)) hs⟩

theorem writtenKey_text {recur : Active → Path → Ref → Except Fault Term} {s : String}
    (hb : w.body k = .atom (.text s)) : writtenKey w recur k = .ok (quote s.toList) := by
  simp only [writtenKey, atom?, hb]

/-! ## One step -/

section Step

variable {recur : Active → Path → Ref → Except Fault Term} {active : Active} {t : Term}

end Step

/-! ## Dumps -/

/-- A mapping with three values that hold themselves: a mapping, a list, and a list in a box. -/
def nested : World :=
  { Session.initialWorld with
    cells := #[dict [(textRef "x", .cell 1), (textRef "y", .cell 2), (textRef "s", .cell 3)],
      dict [(textRef "up", .cell 1)], list [intRef 0, .cell 2], boxed (.cell 4), list [.cell 4]] }

example : answered (encode (.cell 0) 0) nested = some
    "\x7b's' => \\[$\x7b$VAR1->\x7b's'\x7d\x7d],'x' => \x7b'up' => $VAR1->\x7b'x'\x7d\x7d,'y' => [0,$VAR1->\x7b'y'\x7d]\x7d" := by
  cbv

end Introspect.Perl
