import Mathlib.Data.Finset.Card
import Mathlib.Data.List.Dedup
import Introspect.Proofs.Data.Cycles
import Introspect.Proofs.Data.Runs
import Introspect.Proofs.Number.Spelling
/-!
The entries that mappings are lowered to. Keys become texts, and of several keys with one text the first gives the
place and the last the value. Which plain keys have one text is decided by texts and bytes alone: no two others do.
-/
namespace Introspect

namespace Data

variable {entries : List (Text × Data)} {e : Text × Data} {key : Text} {value : Data} {t : String}

/-! ## Entries by text -/

end Data

namespace Lower

open World Dispatch

/-! ## Texts of plain keys -/

def keyText : Atom → String
  | .none => "null"
  | .bool b => if b then "true" else "false"
  | .number n => n.text
  | .text s => s
  | .bytes b => Text.Utf8.decodeReplacing b

def isTextual : Atom → Bool
  | .text _ | .bytes _ => true
  | _ => false

/-- Texts, bytes, truth values and none; of the numbers, integers and floating-point numbers in their one form. -/
def IsBasic : Atom → Prop
  | .number n => n.IsPrimitive
  | _ => True

/-- The first is a text or bytes, and is read as the text of the second. -/
def Spells (a b : Atom) : Prop := isTextual a = true ∧ keyText a = keyText b

instance (a b : Atom) : Decidable (Spells a b) := inferInstanceAs (Decidable (_ ∧ _))

/-- A key that is a plain value. If it is a number, its class leaves its text alone. -/
structure IsPlainKey (v : World) (k : Ref) (a : Atom) : Prop where
  has : v.Has k
  body : v.body k = .atom a
  basic : IsBasic a
  shown : ∀ n, a = .number n → hasNativeText v k = true

variable {a b : Atom} {n : Number} {v v' : World} {k s : Ref} {t : Data.Text}

theorem plainTextOf_basic {shown : String} (hn : IsBasic (.number n)) (h : plainTextOf v k (.number n) = .ok shown) :
    shown = n.text := by
  have hdeclared (address : Nat) : Atom.number n ≠ .number (.declared address) := by
    rintro ⟨⟩
    exact hn
  rw [plainTextOf, atomDisplay_of_ne hdeclared] at h
  have heither : Atom.written Number.text n = .ok shown ∨ Atom.written Number.display n = .ok shown := by
    unfold nativeTextOf at h
    split at h
    · contradiction
    · exact .inl h
    · exact .inl h
    · exact .inr h
  rcases heither with h | h
  · exact Atom.eq_of_written h
  · exact Number.display_eq_text hn ▸ Atom.eq_of_written h

theorem ok_of_makes {m : Act Ref} {x : Except Fault Atom} (hm : v.Makes m x) (h : m v = .ok s v') :
    ∃ a, x = .ok a ∧ v'.IsOrdinary s a := by
  cases x with
  | error fault =>
      obtain ⟨u, -, hrun⟩ := hm v (.refl v)
      rw [hrun] at h
      cases h
  | ok a =>
      obtain ⟨u, r, -, hrun, hr⟩ := hm v (.refl v)
      rw [hrun] at h
      cases h
      exact ⟨a, rfl, hr⟩

theorem ok_of_makes_text {m : Act Ref} {x : Except Fault String} (hm : v.Makes m (x >>= fun shown => .ok (.text shown)))
    (h : m v = .ok s v') : ∃ shown, x = .ok shown ∧ v'.IsOrdinary s (.text shown) := by
  obtain ⟨a, ha, hs⟩ := ok_of_makes hm h
  obtain ⟨shown, hshown, ha⟩ := bind_ok_iff.mp ha
  cases ha
  exact ⟨shown, hshown, hs⟩

/-- Requests of the last depth make none in turn, so that only a text that is there at once is answered. -/
theorem perform_one_text (hb : v.body k = .atom (.number n)) (hn : hasNativeText v k = true)
    (h : perform 1 (.text k) v = .ok s v') :
    ∃ shown, plainTextOf v k (.number n) = .ok shown ∧ v'.IsOrdinary s (.text shown) := by
  simp only [hasNativeText, Bool.and_eq_true] at hn
  have hshow := showsContent_of_isNativeHook hn.1.2
  change Dispatch.text (perform 0) k v = _ at h
  rw [Dispatch.text, run_get, declaredHook?_of_isNativeHook hn.1.2] at h
  dsimp only at h
  rw [run_get, nativeText, run_get, hb] at h
  change Yields _ v s v' at h
  unfold plainTextOf
  generalize (nativeHook? v k "__str__").getD .object = hook at h hshow ⊢
  have hastext (h : (do Act.text (← Act.liftExcept (Atom.number n).asText)) v = .ok s v') :
      ∃ shown, (Atom.number n).asText = .ok shown ∧ v'.IsOrdinary s (.text shown) :=
    ok_of_makes_text (Makes.of_steady (steady_liftExcept v _) fun shown _ => makes_text v shown) h
  split at h
  · cases hshow
  · cases hshow
  · cases hshow
  · rename_i hm
    cases hm
  · rename_i hm
    cases hm
  · rename_i hm
    cases hm
  · rename_i hm
    cases hm
  · rename_i hm
    cases hm
    exact hastext h
  · rename_i hm
    cases hm
    exact hastext h
  · cases h

theorem perform_text_number {depth : Nat} (hk : v.Has k) (hb : v.body k = .atom (.number n)) (hn : hasNativeText v k = true)
    (h : perform depth (.text k) v = .ok s v') :
    ∃ shown, plainTextOf v k (.number n) = .ok shown ∧ v'.IsOrdinary s (.text shown) := by
  match depth with
  | 0 => cases h
  | 1 => exact perform_one_text hb hn h
  | depth + 2 => exact ok_of_makes_text (makes_performText depth hk hb hn) h

theorem converted_of_isOrdinary {u : World} {shown : String} (hs : u.IsOrdinary s (.text shown)) :
    (do return ⟨← Ask.content s, (← get).classOf s⟩ : Act Data.Text) u = .ok (.plain shown) u := by
  have hcontent : Ask.content s u = .ok shown u := by
    rw [Ask.content, run_get, hs.body]
    rfl
  rw [run_bind_ok hcontent, run_get, hs.cls]
  rfl

/-- A plain key becomes its text, which is of the class of texts. -/
theorem key_of_isPlainKey (ha : IsPlainKey v k a) (h : key k v = .ok t v') : t = .plain (keyText a) := by
  have hatom : v.atom? k = some a := by rw [atom?, ha.body]
  rw [key, run_get, hatom] at h
  cases a with
  | number n =>
      obtain ⟨s, u, hs, h⟩ := run_bind h
      obtain ⟨shown, hshown, hs⟩ := perform_text_number ha.has ha.body (ha.shown n rfl) hs
      rw [converted_of_isOrdinary hs] at h
      cases h
      rw [plainTextOf_basic ha.basic hshown, keyText]
  | _ =>
      cases h
      rfl

/-! ## Mappings -/

section Mappings

variable {recur : List Ref → Ref → Act Data} {active : List Ref} {w u u' : World} {m : Ref} {pairs : List (Ref × Ref)}
  {es : List (Data.Text × Data)} {d : Data} {p : Ref × Ref} {e : Data.Text × Data}

/-- An entry made of a key and a value, each looked at in its turn between two worlds. -/
def EntryOf (recur : List Ref → Ref → Act Data) (active : List Ref) (u v : World) (p : Ref × Ref)
    (e : Data.Text × Data) : Prop :=
  ∃ v₁ v₂ v₃, u.Evolves v₁ ∧ key p.1 v₁ = .ok e.1 v₂ ∧ recur active p.2 v₂ = .ok e.2 v₃ ∧ v₃.Evolves v

theorem EntryOf.mono (h : EntryOf recur active u' v p e) (hu : u.Evolves u') : EntryOf recur active u v p e := by
  obtain ⟨v₁, v₂, v₃, hfirst, hkey, hvalue, hlast⟩ := h
  exact ⟨v₁, v₂, v₃, hu.trans hfirst, hkey, hvalue, hlast⟩

section Plain

variable [hk : ∀ active r, Keeping (recur active r)] {atoms : List Atom}

theorem EntryOf.of_plain (h : EntryOf recur active u v p e)
    (ha : ∀ v₁, u.Evolves v₁ → v₁.Evolves v → IsPlainKey v₁ p.1 a) : IsBasic a ∧ e.1.text = keyText a := by
  obtain ⟨v₁, v₂, v₃, hfirst, hkey, hvalue, hlast⟩ := h
  have hplain := ha v₁ hfirst (((Keeping.evolves_of_ok hkey).trans (Keeping.evolves_of_ok hvalue)).trans hlast)
  exact ⟨hplain.basic, by rw [key_of_isPlainKey hplain hkey, Data.Text.plain]⟩

end Plain

def numberedKeys : List (Atom × Ref) := [(Atom.int 1, .atom .none), (.text "one", intRef 1), (.none, .atom (.text "none"))]

/-- A mapping with plain keys of three kinds. -/
def numbered : World :=
  { Session.initialWorld with cells := #[cellOf .dict (.mapping (numberedKeys.map fun e => (.atom e.1, e.2)))] }

end Mappings

end Lower

end Introspect
