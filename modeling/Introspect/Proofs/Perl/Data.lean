import Introspect.Proofs.Dispatch.NativeText
import Introspect.Proofs.Perl.Writing
import Introspect.Proofs.Reflect.Storage
/-!
Data that is written without running declared code: plain values of the host's own classes, containers,
and objects that are read quietly. The term of a plain value is that of its content.
-/
namespace Introspect.Perl

open World Dispatch

/-- Writing the reference runs no declared code. -/
def isData (w : World) (r : Ref) : Bool :=
  match w.body r with
  | .atom (.number n) => w.classOf r = .native (atomClass (.number n))
  | _ => !w.isObject r || w.StoresQuietly r

def numberTerm : Number → String → Term
  | .int _, text => integerTerm text
  | _, text => .quoted text.toList

/-- The term of a plain value by its content. -/
def contentOf : Atom → Except Fault Term
  | .none => .ok .undefined
  | .bool true => .ok (.bare ['1'])
  | .bool false => .ok (.quoted [])
  | .number n => numberTerm n <$> (Atom.number n).asText
  | .text s => .ok (.quoted s.toList)
  | .bytes b => .ok (.quoted (Text.latin1 b))

variable {w b : World} {S : List Ref} {r : Ref} {n : Number}

theorem isOrdinary_of_isData (h : isData w r = true) (hr : w.Has r) (hn : w.body r = .atom (.number n)) :
    w.IsOrdinary r (.number n) :=
  ⟨hr, hn, by simpa only [isData, hn, decide_eq_true_eq] using h⟩

theorem storesQuietly_of_isData (h : isData w r = true) (ho : w.isObject r = true) : w.StoresQuietly r := by
  unfold isData at h
  split at h
  · rename_i hb
    simp only [isObject, hb] at ho
    cases ho
  · simpa only [ho, Bool.not_true, Bool.false_or, decide_eq_true_eq] using h

/-! ## Plain values -/

theorem text_of_asText {n : Number} {s : String} (h : (Atom.number n).asText = .ok s) : s = n.text := by
  change Atom.written Number.text n = _ at h
  unfold Atom.written at h
  split at h
  · cases h; rfl
  · cases h

/-- The native class that makes the text of a number. -/
def textHook : Number → Native
  | .decimal _ => .decimal
  | .fraction .. => .fraction
  | _ => .object

theorem nativeHook?_number (h : w.IsOrdinary r (.number n)) : nativeHook? w r "__str__" = some (textHook n) := by
  rw [nativeHook?, h.cls, entryOf?_native w Session.initialWorld]
  cases n <;> (simp only [atomClass, textHook]; decide)

theorem plainTextOf_number (h : w.IsOrdinary r (.number n)) :
    plainTextOf w r (.number n) = (Atom.number n).asText := by
  rw [plainTextOf, nativeHook?_number h]
  cases n with
  | declared address => simp only [atomDisplay_of_declared h]; rfl
  | _ => rfl

theorem steady_textOf_number (hd : 2 ≤ b.nesting) (h : b.IsOrdinary r (.number n)) :
    b.Steady (Dispatch.ask.textOf r) (Atom.number n).asText := by
  rw [← plainTextOf_number h]
  exact steady_textOf hd h.has h.body (hasNativeText_of_isOrdinary h)

theorem settles_textOf_number (h : w.IsOrdinary r (.number n)) :
    w.Settles (Dispatch.ask.textOf r) (Atom.number n).asText :=
  Filter.eventually_atTop.mpr ⟨2, fun m hm => steady_textOf_number hm (h.grows (w.grows_limited m))⟩

theorem declaredHook?_integer {i : Int} (h : b.IsOrdinary r (Atom.int i)) :
    declaredHook? b r "__int__" = none := by
  have hentry : isNativeHook (b.entryOf? (b.classOf r) "__int__") = true := by
    rw [h.cls, entryOf?_native b Session.initialWorld]
    simp only [Atom.int, atomClass]
    decide
  exact declaredHook?_of_isNativeHook hentry

/-- An integer that converts by itself is written as its digits. -/
theorem steady_atomTerm_unhooked {i : Int} (hd : 2 ≤ b.nesting) (hr : b.Has r) (ha : b.body r = .atom (Atom.int i))
    (hh : declaredHook? b r "__int__" = none) : b.Steady (atomTerm r (Atom.int i)) (contentOf (Atom.int i)) := by
  rw [Atom.int, contentOf, map_eq_pure_bind]
  refine (makes_integer_of_unhooked (Nat.le_of_lt hd) hr ha hh).bind
    (g := fun _ => (Atom.int i).asText >>= fun s => .ok (integerTerm s)) fun a ha u q hu hq => ?_
  cases ha
  exact (steady_textOf_number (hu.nesting ▸ hd) hq).bind fun s _ => .pure u (integerTerm s)

theorem steady_atomTerm_number (hd : 2 ≤ b.nesting) (h : b.IsOrdinary r (.number n)) :
    b.Steady (atomTerm r (.number n)) (contentOf (.number n)) := by
  cases n with
  | int i => exact steady_atomTerm_unhooked hd h.has h.body (declaredHook?_integer h)
  | _ =>
      rw [contentOf, map_eq_pure_bind]
      exact (steady_textOf_number hd h).bind fun s _ => .pure b (Term.quoted s.toList)

theorem steady_atomTerm {a : Atom} (hd : 2 ≤ b.nesting) (h : ∀ n, a = .number n → b.IsOrdinary r a) :
    b.Steady (atomTerm r a) (contentOf a) := by
  cases a with
  | number n => exact steady_atomTerm_number hd (h n rfl)
  | bool v => cases v <;> exact .pure b _
  | none => exact .pure b _
  | text s => exact .pure b _
  | bytes content => exact .pure b _

theorem settles_atomTerm {a : Atom} (h : isData w r = true) (hr : w.Has r) (ha : w.body r = .atom a) :
    w.Settles (atomTerm r a) (contentOf a) := by
  refine Filter.eventually_atTop.mpr ⟨2, fun m hm => steady_atomTerm hm fun n hn => ?_⟩
  subst hn
  exact (isOrdinary_of_isData h hr ha).grows (w.grows_limited m)

theorem graph_of_isData (hs : w.registry.Sound) (hhas : ∀ r ∈ S, w.Has r)
    (hdata : ∀ r ∈ S, isData w r = true) (hparts : ∀ r ∈ S, ∀ c ∈ w.parts r, c ∈ S) : Graph w S where
  toClosed := .of_parts hs hhas (fun r hr ho => storesQuietly_of_isData (hdata r hr) ho) hparts
  values r hr _ ha := ⟨_, settles_atomTerm (hdata r hr) (hhas r hr) ha⟩
  numbers r hr _ hn := ⟨_, settles_textOf_number (isOrdinary_of_isData (hdata r hr) (hhas r hr) hn)⟩
  storage r hr ho := ⟨_, settles_fields (storesQuietly_of_isData (hdata r hr) ho)⟩

end Introspect.Perl
