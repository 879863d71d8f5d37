import Introspect.Proofs.Perl.Data
import Introspect.Proofs.Perl.Numerals
/-!
Terms of what holds no parts. Whatever hooks its class declares, a plain value is written as nothing, as a
numeral or as a quoted text.
-/
namespace Introspect

namespace World

variable {v u : World}

theorem isOrdinary_of_run {a : Atom} {q : Ref} (h : Act.atom a v = .ok q u) : u.IsOrdinary q a := by
  obtain ⟨u', q', -, hrun, hq⟩ := makes_atom v a v (.refl v)
  rw [h] at hrun
  cases hrun
  exact hq

end World

namespace Dispatch

open World

variable {v u : World} {r q : Ref} {i j : Int} {depth : Nat}

theorem isOrdinary_of_expectInteger (h : expectInteger r v = .ok q u) : ∃ j, u.IsOrdinary q (Atom.int j) := by
  have hget (f : World → Act Ref) : (get >>= f) v = f v v := rfl
  rw [expectInteger, hget] at h
  cases hb : v.body r with
  | atom a =>
      rw [hb] at h
      cases a with
      | bool b => exact ⟨_, isOrdinary_of_run h⟩
      | number n =>
          cases n with
          | int i => exact ⟨i, isOrdinary_of_run h⟩
          | _ => cases h
      | _ => cases h
  | _ => rw [hb] at h; cases h

/-- An integer converts to one of the host's own class, by its hook or without. -/
theorem isOrdinary_of_integer (hb : v.body r = .atom (Atom.int i)) (h : perform depth (.integer r) v = .ok q u) :
    ∃ j, u.IsOrdinary q (Atom.int j) := by
  cases depth with
  | zero => cases h
  | succ depth =>
      have hget (f : World → Act Ref) : (get >>= f) v = f v v := rfl
      have hstep : perform (depth + 1) (.integer r) v = integer (perform depth) r v := rfl
      rw [hstep, integer, hget] at h
      cases hhook : declaredHook? v r "__int__" with
      | some found =>
          rw [hhook] at h
          obtain ⟨value, v', -, h⟩ := run_bind h
          exact isOrdinary_of_expectInteger h
      | none =>
          rw [hhook, hb] at h
          exact ⟨i, isOrdinary_of_run h⟩

theorem text_of_content {s : String} (h : v.IsOrdinary q (.text s)) {s' : String}
    (hs : Ask.content q v = .ok s' u) : s' = s := by
  rw [Ask.content, run_get, h.body] at hs
  cases hs
  rfl

/-- What is made as the text of a number has the text of its value for content. -/
theorem text_of_made {n : Number} {s : String} {v' : World}
    (hq : (do Act.text (← Act.liftExcept (Atom.number n).asText)) v = .ok q v')
    (hs : Ask.content q v' = .ok s u) : s = n.text := by
  obtain ⟨text, v'', htext, hq⟩ := run_bind hq
  cases ha : (Atom.number n).asText with
  | error fault =>
      rw [ha] at htext
      cases htext
  | ok text' =>
      rw [ha] at htext
      cases htext
      rw [text_of_content (isOrdinary_of_run hq) hs]
      exact Perl.text_of_asText ha

/-- A single request makes the text of a number at once or not at all. -/
theorem text_of_one {n : Number} {s : String} (h : v.IsOrdinary r (.number n)) (hn : v.nesting = 1)
    (hs : Dispatch.ask.textOf r v = .ok s u) : s = n.text := by
  have hget (f : World → Act Ref) : (get >>= f) v = f v v := rfl
  have hdeclared : declaredHook? v r "__str__" = none := by
    refine declaredHook?_of_isNativeHook ?_
    rw [h.cls]
    exact (isNativeHook_atomClass v _).1
  obtain ⟨q, v', hq, hs⟩ := run_bind hs
  have hask : Dispatch.ask (.text r) v = text (perform 0) r v := by
    rw [Dispatch.ask, hget, hn]
    rfl
  rw [hask, text, hget, hdeclared] at hq
  dsimp only at hq
  rw [hget, Perl.nativeHook?_number h, nativeText, hget, h.body] at hq
  cases n with
  | decimal d => exact text_of_made hq hs
  | fraction num den => exact text_of_made hq hs
  | _ => cases hq

/-- The text of a number of the host's own class is that of its value. -/
theorem text_of_number {n : Number} {s : String} (h : v.IsOrdinary r (.number n))
    (hs : Dispatch.ask.textOf r v = .ok s u) : s = n.text := by
  match hn : v.nesting with
  | 0 =>
      obtain ⟨q, v', hq, -⟩ := run_bind hs
      have hask : Dispatch.ask (.text r) v = perform v.nesting (.text r) v := rfl
      rw [hask, hn] at hq
      cases hq
  | 1 => exact text_of_one h hn hs
  | depth + 2 =>
      have hd : 2 ≤ v.nesting := hn ▸ Nat.le_add_left 2 depth
      exact Perl.text_of_asText ((Perl.steady_textOf_number hd h).of_run (.refl v) hs).1

end Dispatch

namespace Perl

open World

/-- A term without parts, other than a path. -/
inductive Term.Leaf : Term → Prop where
  | undefined : Leaf .undefined
  | bare {text} : text ≠ [] → (∀ c ∈ text, isNumeralChar c = true) → Leaf (.bare text)
  | quoted (content) : Leaf (.quoted content)
  | code : Leaf .code

variable {w v u : World} {S : List Ref} {r : Ref} {a : Atom} {t : Term}

theorem Term.Leaf.proper (h : t.Leaf) : Proper t := by
  cases h with
  | undefined => exact .undefined
  | bare hne hchars => exact .bare hne hchars
  | quoted content => exact .quoted content
  | code => exact .code

theorem leaf_integerTerm (i : Int) : (integerTerm (toString i)).Leaf := by
  unfold integerTerm
  simp only
  split
  · exact .bare (Numeral.toList_int_ne_nil i) (isNumeralChar_int i)
  · exact .quoted _

theorem leaf_of_run (hb : v.body r = .atom a) (h : atomTerm r a v = .ok t u) : t.Leaf := by
  cases a with
  | none => cases h; exact .undefined
  | bool b =>
      cases b with
      | false => cases h; exact .quoted []
      | true => cases h; exact .bare (by decide) (by simp [isNumeralChar])
  | text s => cases h; exact .quoted _
  | bytes content => cases h; exact .quoted _
  | number n =>
      cases n with
      | int i =>
          obtain ⟨q, v', hq, h⟩ := run_bind h
          obtain ⟨j, hj⟩ := Dispatch.isOrdinary_of_integer hb hq
          obtain ⟨s, v'', hs, h⟩ := run_bind h
          cases h
          rw [Dispatch.text_of_number hj hs]
          exact leaf_integerTerm j
      | _ =>
          obtain ⟨s, v', -, h⟩ := run_bind h
          cases h
          exact .quoted _

theorem leaf_of_settles (hr : w.Has r) (hb : w.body r = .atom a) (h : w.Settles (atomTerm r a) (.ok t)) :
    t.Leaf := by
  obtain ⟨n, u, hrun⟩ := h.exists_run
  exact leaf_of_run (((w.grows_limited n).body hr).trans hb) hrun

/-! ## Leaves -/

noncomputable def leafTerm (w : World) (r : Ref) : Except Fault Term :=
  match w.body r with
  | .atom a => w.answer (atomTerm r a)
  | .cls c => .ok (.quoted (w.info c).fullName.toList)
  | _ => .ok .code

/-- A leaf is written alike at every place. -/
theorem writeStep_leaf {recur : Active → Path → Ref → Except Fault Term} (active : Active) (p : Path)
    (hleaf : isLeaf w r = true) : writeStep w recur active p r = leafTerm w r := by
  unfold isLeaf at hleaf
  unfold writeStep leafTerm
  cases hb : w.body r <;> simp_all

theorem Graph.leaf_of_leafTerm (hG : Graph w S) (hr : r ∈ S) (h : leafTerm w r = .ok t) : t.Leaf := by
  unfold leafTerm at h
  split at h
  · rename_i a hb
    have hsettles := settles_answer (hG.values r hr a hb)
    rw [h] at hsettles
    exact leaf_of_settles (hG.has r hr) hb hsettles
  · cases h
    exact .quoted _
  · cases h
    exact .code

end Perl

end Introspect
