import Introspect.Proofs.Equality.Step
import Introspect.Proofs.Reflect.Storage
/-!
Data without declared code: plain values of the host's own classes, containers, and objects whose classes
exist, overload nothing and are read quietly. Such references form graphs that can be compared.
-/
namespace Introspect.Equality

open World

/-- Comparing the reference runs no declared code. -/
def isData (w : World) (r : Ref) : Bool :=
  match w.body r with
  | .atom x => w.classOf r = .native (atomClass x)
  | .box .. | .mapping _ | .sequence _ | .range .. | .byteArray _ | .members _ => true
  | _ => w.StoresQuietly r ∧ w.isAlive (w.classOf r) = true ∧ w.overloads (w.classOf r) = .none

variable {w : World} {S : List Ref} {r : Ref}

theorem isOrdinary_of_isData {x : Atom} (h : isData w r = true) (hr : w.Has r)
    (hx : w.body r = .atom x) : w.IsOrdinary r x :=
  ⟨hr, hx, by simpa only [isData, hx, decide_eq_true_eq] using h⟩

theorem object_of_isData (h : isData w r = true) (ho : isValueObject w r = true) :
    w.StoresQuietly r ∧ w.isAlive (w.classOf r) = true ∧ w.overloads (w.classOf r) = .none := by
  unfold isData at h
  unfold isValueObject at ho
  split at h <;> simp_all

theorem isValueObject_of_isObject (h : w.isObject r = true) : isValueObject w r = true := by
  unfold isObject at h
  unfold isValueObject
  split at h <;> simp_all

theorem converts_of_isData (h : isData w r = true) : converts w r = false := by
  cases ho : isValueObject w r with
  | false => rw [converts, ho]; rfl
  | true => rw [converts, (object_of_isData h ho).2.2]; simp [Overloads.none]

theorem graph_of_isData (hs : w.registry.Sound) (hhas : ∀ r ∈ S, w.Has r)
    (hdata : ∀ r ∈ S, isData w r = true) (hparts : ∀ r ∈ S, ∀ c ∈ w.parts r, c ∈ S)
    (hlayout : ∀ a ∈ S, ∀ b ∈ S, w.classOf a = w.classOf b → w.isObject a = w.isObject b) :
    Graph w S where
  toClosed := .of_parts hs hhas
    (fun r hr ho => (object_of_isData (hdata r hr) (isValueObject_of_isObject ho)).1) hparts
  alive r hr ho := (object_of_isData (hdata r hr) ho).2.1
  noEquality r hr ho := by rw [(object_of_isData (hdata r hr) ho).2.2]; rfl
  forms r hr hf := by
    rw [hasForm, converts_of_isData (hdata r hr), Bool.or_false, isPlain, atom?] at hf
    split at hf
    · rename_i x hx
      exact ⟨x, _, formIs_of_hasNativeText (hhas r hr) hx
        (Dispatch.hasNativeText_of_isOrdinary (isOrdinary_of_isData (hdata r hr) (hhas r hr) hx))⟩
    · cases hf
  storage r hr ho _ :=
    ⟨_, settles_fields (object_of_isData (hdata r hr) (isValueObject_of_isObject ho)).1⟩
  layout := hlayout

end Introspect.Equality
