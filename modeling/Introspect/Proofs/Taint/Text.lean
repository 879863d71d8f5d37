import Introspect.Proofs.Dispatch.NativeText
import Introspect.Proofs.Session.Reachable
/-!
The text of a box. A marked box has a tainted text if what it holds has a text at all, and a box without a mark has the
text of what it holds, tainted or not.
-/
namespace Introspect

open World

namespace Dispatch

/-! ## Requests for texts -/

/-- Whatever the computation answers from a world is a text. -/
def AnswersText (w : World) (m : Act Ref) : Prop := ∀ q u, m w = .ok q u → ∃ s, u.body q = .atom (.text s)

variable {w u : World} {ask : Ask} {r : Ref}

namespace AnswersText

theorem throw (fault : Fault) : AnswersText w (MonadExcept.throw fault) := fun _ _ h => by cases h

theorem pure {s : String} (h : w.body r = .atom (.text s)) : AnswersText w (Pure.pure r) := fun q u hrun => by
  cases hrun
  exact ⟨s, h⟩

theorem bind {α : Type} {m : Act α} {f : α → Act Ref} (h : ∀ a v, m w = .ok a v → AnswersText v (f a)) :
    AnswersText w (m >>= f) := fun q u hrun => by
  obtain ⟨a, v, hm, hf⟩ := run_bind hrun
  exact h a v hm q u hf

theorem get {f : World → Act Ref} (h : AnswersText w (f w)) : AnswersText w (MonadState.get >>= f) := h

theorem text (w : World) (s : String) : AnswersText w (Act.text s) := fun q u h => by
  rw [Act.text, Act.atom] at h
  split at h
  · cases h
    exact ⟨s, rfl⟩
  · cases h
    exact ⟨s, by simp [World.body]⟩

theorem tainted (w : World) (s : String) : AnswersText w (taintedText s) := fun q u h => by
  cases h
  exact ⟨s, by simp [World.body]⟩

end AnswersText

theorem content_ok {s : String} (h : Ask.content r w = .ok s u) : u = w ∧ w.body r = .atom (.text s) := by
  rw [Ask.content, run_get] at h
  cases hb : w.body r with
  | atom a =>
      rw [hb] at h
      cases a with
      | text t => cases h; exact ⟨rfl, rfl⟩
      | _ => cases h
  | _ => rw [hb] at h; cases h

theorem content_of_body {s : String} (h : w.body r = .atom (.text s)) : Ask.content r w = .ok s w := by
  rw [Ask.content, run_get, h]
  rfl

/-- An answer is checked to be a text. -/
theorem answersText_checked (w : World) (m : Act Ref) : AnswersText w (do
    let value ← m
    let _ ← Ask.content value
    return value) :=
  .bind fun value v _ => .bind fun s v' hs => by
    obtain ⟨rfl, hs⟩ := content_ok hs
    exact .pure hs

theorem answersText_textFrom (w : World) (r : Ref) (method : String) : AnswersText w (textFrom ask r method) := by
  unfold textFrom
  exact .bind fun f v _ => answersText_checked v _

theorem answersText_display (w : World) (active : List Ref) (r : Ref) : AnswersText w (display ask active r) := by
  unfold display
  refine .get ?_
  split
  · exact answersText_checked w _
  · refine .get ?_
    split
    · exact answersText_textFrom w r "toStr"
    · exact answersText_textFrom w r "toStr"
    · exact .bind fun s v _ => .text v s
    · exact .bind fun s v _ => .text v s

section Asking

variable (htext : ∀ w r, AnswersText w (ask (.text r)))
  (hdisplay : ∀ w active r, AnswersText w (ask (.display active r)))

include htext in
theorem answersText_boxText (w : World) (r : Ref) : AnswersText w (boxText ask r) := by
  unfold boxText
  refine .get ?_
  split
  · rename_i value tainted _
    cases tainted with
    | true => exact .bind fun s v _ => .bind fun t v' _ => .tainted v' t
    | false =>
        refine .bind fun s v hs => ?_
        obtain ⟨t, ht⟩ := htext w value s v hs
        exact .pure ht
  · exact .throw _

include htext hdisplay

theorem answersText_nativeText (w : World) (n : Native) (r : Ref) : AnswersText w (nativeText ask n r) := by
  unfold nativeText
  refine .get ?_
  split
  · exact answersText_boxText htext w r
  · exact answersText_textFrom w r "toStr"
  · exact answersText_textFrom w r "toStr"
  · split
    · exact .pure ‹_›
    · exact .text w _
  · exact hdisplay w _ _
  · exact htext w _
  · exact .bind fun s v _ => .text v _
  · exact .bind fun s v _ => .text v s
  · exact .bind fun s v _ => .text v s
  · exact hdisplay w _ _

theorem answersText_text (w : World) (r : Ref) : AnswersText w (text ask r) := by
  unfold Dispatch.text
  refine .get ?_
  split
  · exact answersText_checked w _
  · exact .get (answersText_nativeText htext hdisplay w _ r)

end Asking

/-- What a request for a text answers is a text, whatever code it runs and however deep requests nest. -/
theorem answersText_perform (depth : Nat) :
    (∀ w r, AnswersText w (perform depth (.text r))) ∧ ∀ w active r, AnswersText w (perform depth (.display active r)) := by
  induction depth with
  | zero => exact ⟨fun w r => .throw _, fun w active r => .throw _⟩
  | succ depth ih => exact ⟨answersText_text ih.1 ih.2, answersText_display⟩

end Dispatch

/-! ## Boxes -/

/-- A box whose class makes its text as boxes do. -/
structure World.IsBox (w : World) (r value : Ref) (tainted : Bool) : Prop where
  body : w.body r = .box value tainted
  declared : Dispatch.declaredHook? w r "__str__" = none
  native : Dispatch.nativeHook? w r "__str__" = some .scalar

/-- Boxes one in the other, with their flags from the outer to the inner one, around a value. -/
inductive World.Nests (w : World) : Ref → List Bool → Ref → Prop
  | refl (r : Ref) : w.Nests r [] r
  | box {r inner value : Ref} {tainted : Bool} {flags : List Bool} : w.IsBox r inner tainted →
      w.Nests inner flags value → w.Nests r (tainted :: flags) value

theorem World.isBox_of_classOf {w : World} {r value : Ref} {tainted : Bool} (hb : w.body r = .box value tainted)
    (hc : w.classOf r = .native .scalar) : w.IsBox r value tainted := by
  refine ⟨hb, ?_, ?_⟩
  · rw [Dispatch.declaredHook?, hc, Dispatch.entryOf?_native w Session.initialWorld]
    decide
  · rw [Dispatch.nativeHook?, hc, Dispatch.entryOf?_native w Session.initialWorld]
    decide

namespace Taint

open Dispatch

variable {w u : World} {m : Act Ref} {r inner value : Ref} {tainted : Bool} {flags : List Bool} {d : Nat}

/-- The computation answers. -/
def Answers (w : World) (m : Act Ref) : Prop := ∃ q u, m w = .ok q u

/-- The computation answers a tainted text. -/
def AnswersTainted (w : World) (m : Act Ref) : Prop := ∃ q u, m w = .ok q u ∧ u.isInstance q .taintedStr = true

theorem perform_text_box (h : w.IsBox r inner tainted) (d : Nat) :
    perform (d + 1) (.text r) w = (do
      let s ← perform d (.text inner)
      if tainted then taintedText (← Ask.content s) else return s : Act Ref) w := by
  change text (perform d) r w = _
  rw [Dispatch.text, run_get, h.declared]
  change nativeText (perform d) ((nativeHook? w r "__str__").getD .object) r w = _
  rw [h.native, Option.getD_some, nativeText, run_get]
  change boxText (perform d) r w = _
  rw [boxText, run_get, h.body]

theorem perform_text_unmarked (h : w.IsBox r inner false) (d : Nat) :
    perform (d + 1) (.text r) w = perform d (.text inner) w := by
  rw [perform_text_box h]
  cases hs : perform d (.text inner) w with
  | ok s u => exact run_bind_ok hs
  | error fault u => exact run_bind_error hs

theorem answersTainted_taintedText (w : World) (s : String) : AnswersTainted w (taintedText s) := by
  refine ⟨_, _, rfl, ?_⟩
  simp only [isInstance, classOf, Array.getElem?_push_size, Option.elim_some]
  rfl

theorem AnswersTainted.answers (h : AnswersTainted w m) : Answers w m := h.imp fun _ => Exists.imp fun _ => And.left

theorem not_answers_of_error {fault : Fault} (h : m w = .error fault u) : ¬ Answers w m := fun ⟨_, _, hq⟩ => by
  rw [h] at hq
  cases hq

theorem answers_congr {m' : Act Ref} (h : m w = m' w) : Answers w m ↔ Answers w m' := by rw [Answers, Answers, h]

theorem answersTainted_congr {m' : Act Ref} (h : m w = m' w) : AnswersTainted w m ↔ AnswersTainted w m' := by
  rw [AnswersTainted, AnswersTainted, h]

/-- A marked box has a text exactly if what it holds has one, and that text is tainted. -/
theorem perform_text_marked (h : w.IsBox r inner true) (d : Nat) :
    (AnswersTainted w (perform (d + 1) (.text r)) ↔ Answers w (perform d (.text inner))) ∧
      (Answers w (perform (d + 1) (.text r)) ↔ Answers w (perform d (.text inner))) := by
  have hbox := perform_text_box h d
  rcases hs : perform d (.text inner) w with ⟨s, u⟩ | ⟨fault, u⟩
  · obtain ⟨t, ht⟩ := (answersText_perform d).1 w inner s u hs
    obtain ⟨q, u', hq, htainted⟩ := answersTainted_taintedText u t
    have hrun : perform (d + 1) (.text r) w = .ok q u' :=
      hbox.trans ((run_bind_ok hs).trans ((run_bind_ok (content_of_body ht)).trans hq))
    exact ⟨iff_of_true ⟨q, u', hrun, htainted⟩ ⟨s, u, hs⟩, iff_of_true ⟨q, u', hrun⟩ ⟨s, u, hs⟩⟩
  · have hfails := not_answers_of_error (hbox.trans (run_bind_error hs))
    have hinner := not_answers_of_error hs
    exact ⟨iff_of_false (fun h => hfails h.answers) hinner, iff_of_false hfails hinner⟩

/-- Boxes in each other have a text if the value in them has one. It is tainted if one of them is marked, or if the text
of the value is. -/
theorem perform_text_nested (h : w.Nests r flags value) (d : Nat) :
    (AnswersTainted w (perform (d + flags.length) (.text r)) ↔
      true ∈ flags ∧ Answers w (perform d (.text value)) ∨ AnswersTainted w (perform d (.text value))) ∧
    (Answers w (perform (d + flags.length) (.text r)) ↔ Answers w (perform d (.text value))) := by
  induction h with
  | refl r => simp
  | @box r inner value tainted flags hbox _ ih =>
      rw [List.length_cons, ← Nat.add_assoc]
      cases tainted with
      | true =>
          obtain ⟨htainted, hanswers⟩ := perform_text_marked hbox (d + flags.length)
          rw [htainted, hanswers, ih.2]
          simp only [List.mem_cons, true_or, true_and, and_true]
          exact ⟨.inl, fun h => h.elim id AnswersTainted.answers⟩
      | false =>
          have hsame := perform_text_unmarked hbox (d + flags.length)
          rw [answersTainted_congr hsame, answers_congr hsame]
          simp only [List.mem_cons, Bool.true_eq_false, false_or]
          exact ih

/-- The text of a plain value is made anew, also where the value is a tainted text. -/
theorem perform_text_plain {a : Atom} {s : String} (hr : w.Has value) (ha : w.body value = .atom a)
    (hn : hasNativeText w value = true) (hs : plainTextOf w value a = .ok s) (d : Nat) :
    Answers w (perform (d + 2) (.text value)) ∧ ¬ AnswersTainted w (perform (d + 2) (.text value)) := by
  have hmakes := makes_performText d hr ha hn
  rw [hs] at hmakes
  obtain ⟨u, q, -, hrun, hq⟩ := hmakes w (.refl w)
  refine ⟨⟨q, u, hrun⟩, ?_⟩
  rintro ⟨q', u', hrun', htainted⟩
  rw [hrun] at hrun'
  cases hrun'
  have hstr : u.isInstance q .taintedStr = false := by
    rw [isInstance, hq.cls]
    rfl
  rw [hstr] at htainted
  cases htainted

theorem ask_eq (h : w.nesting = d) (q : Request) : Dispatch.ask q w = perform d q w := by
  rw [Dispatch.ask, run_get, h]

theorem isTaintedWithin_box (h : w.body r = .box inner tainted) (d : Nat) :
    isTaintedWithin (d + 1) r w = .ok tainted w := by
  rw [isTaintedWithin, run_get, h]
  rfl

theorem isTainted_box (h : w.body r = .box inner tainted) (hn : w.nesting = d + 1) : isTainted r w = .ok tainted w := by
  rw [isTainted, run_get, hn, isTaintedWithin_box h]

/-- A box is tainted exactly if its text is, where the box is marked and the value in it has a text, or where no box in
it is marked, as far as the value has a text, and the text of the value is not tainted. -/
theorem isTainted_iff_text_iff (h : w.Nests r (tainted :: flags) value) (hn : w.nesting = d + (flags.length + 1)) :
    (isTainted r w = .ok true w ↔ AnswersTainted w (Dispatch.ask (.text r))) ↔
      if tainted then Answers w (perform d (.text value))
      else ¬ (true ∈ flags ∧ Answers w (perform d (.text value))) ∧ ¬ AnswersTainted w (perform d (.text value)) := by
  obtain ⟨htainted, -⟩ := perform_text_nested h d
  rw [answersTainted_congr (ask_eq hn _), ← List.length_cons, htainted]
  cases h with
  | box hbox _ =>
      rw [isTainted_box hbox.body (d := d + flags.length) (by rw [hn]; rfl)]
      cases tainted with
      | true =>
          simp only [List.mem_cons, true_or, true_and, true_iff, if_true]
          exact ⟨fun h => h.elim id AnswersTainted.answers, .inl⟩
      | false => simp

end Taint

namespace Session

open Taint

/-- A box that was marked after it was put around another one. -/
def markedOutside : Session :=
  following
    [.value (.assign "s" (.box (.text "x") false)),
     .value (.assign "t" (.box (.known "s") false)),
     .handle .asData (.known "t") .taint]
    initial

theorem isTainted_iff_text_markedOutside : ∃ w s t, markedOutside.world = w ∧
    markedOutside.values = [("s", s), ("t", t)] ∧ w.body s = .box (.atom (.text "x")) false ∧ w.body t = .box s true ∧
    (isTainted t w = .ok true w ↔ AnswersTainted w (Dispatch.ask (.text t))) ∧
    (isTainted s w = .ok true w ↔ AnswersTainted w (Dispatch.ask (.text s))) := by
  have hs : markedOutside.world.body (.cell 0) = .box (.atom (.text "x")) false := by decide +kernel
  have ht : markedOutside.world.body (.cell 1) = .box (.cell 0) true := by decide +kernel
  have hinner := isBox_of_classOf hs (by decide +kernel)
  have houter := isBox_of_classOf ht (by decide +kernel)
  have hnesting : markedOutside.world.nesting = 1000 := by decide +kernel
  have hplain : Dispatch.plainTextOf markedOutside.world (.atom (.text "x")) (.text "x") = .ok "x" := by decide +kernel
  have hhas : markedOutside.world.Has (.atom (.text "x")) := trivial
  have htext := perform_text_plain hhas rfl (by decide +kernel) hplain
  refine ⟨_, .cell 0, .cell 1, rfl, by decide +kernel, hs, ht, ?_, ?_⟩
  · exact (isTainted_iff_text_iff (.box houter (.box hinner (.refl _))) hnesting).mpr (htext 996).1
  · exact (isTainted_iff_text_iff (.box hinner (.refl _)) hnesting).mpr ⟨by simp, (htext 997).2⟩

/-- A box around one that holds a tainted text. -/
def wrapped : Session :=
  following
    [.value (.assign "s" (.box (.tainted "x") false)),
     .value (.assign "t" (.box (.known "s") false))]
    initial

theorem not_isTainted_iff_text_wrapped : wrapped.Reachable ∧ ∃ s t, wrapped.values = [("s", s), ("t", t)] ∧
    wrapped.world.body s = .box (.cell 0) true ∧ wrapped.world.body t = .box s false ∧
    ¬ (isTainted t wrapped.world = .ok true wrapped.world ↔ AnswersTainted wrapped.world (Dispatch.ask (.text t))) := by
  have hs : wrapped.world.body (.cell 1) = .box (.cell 0) true := by decide +kernel
  have ht : wrapped.world.body (.cell 2) = .box (.cell 1) false := by decide +kernel
  have hinner := isBox_of_classOf hs (by decide +kernel)
  have houter := isBox_of_classOf ht (by decide +kernel)
  have hnesting : wrapped.world.nesting = 998 + 2 := by decide +kernel
  have hhas : wrapped.world.Has (.cell 0) := by
    change 0 < wrapped.world.cells.size
    decide +kernel
  have hplain : Dispatch.plainTextOf wrapped.world (.cell 0) (.text "x") = .ok "x" := by decide +kernel
  have hanswers : Answers wrapped.world (Dispatch.perform 998 (.text (.cell 0))) :=
    (perform_text_plain hhas (by decide +kernel) (by decide +kernel) hplain 996).1
  have htext : AnswersTainted wrapped.world (Dispatch.perform (998 + 2) (.text (.cell 2))) :=
    ((perform_text_nested (.box houter (.box hinner (.refl _))) 998).1).mpr (.inl ⟨by simp, hanswers⟩)
  refine ⟨.following .refl _, .cell 1, .cell 2, by decide +kernel, hs, ht, fun h => ?_⟩
  have hasked : AnswersTainted wrapped.world (Dispatch.ask (.text (.cell 2))) :=
    (answersTainted_congr (ask_eq hnesting _)).mpr htext
  have hflag := isTainted_box ht hnesting
  rw [h.mpr hasked] at hflag
  cases hflag

end Session

end Introspect
