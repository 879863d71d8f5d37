import Introspect.Data.Lower
import Introspect.Proofs.Reflect.Storage
/-!
The graphs of references that are lowered to plain data. Containers and objects lead to what they
contain, and so do boxes; nothing leads on from plain values, classes and code.
-/
namespace Introspect.Lower

open World Dispatch

/-- A plain value whose class leaves it as it is. -/
def isUnhooked (w : World) (r : Ref) : Atom → Bool
  | .none | .bool _ | .text _ | .bytes _ => true
  | .number (.int _) => (declaredHook? w r "__int__").isNone
  | .number (.float _) => (declaredHook? w r "__float__").isNone
  | .number _ => false

def isCode (w : World) (r : Ref) : Bool :=
  match w.body r with
  | .routine _ | .bound .. | .partialCall _ | .methodWrapper => true
  | _ => false

/-- Objects that are in progress while what they contain is lowered. Boxes are not among them. -/
def isTracked (w : World) (r : Ref) : Bool :=
  match w.body r with
  | .atom _ | .box .. | .cls _ | .routine _ | .bound .. | .partialCall _ | .methodWrapper => false
  | _ => true

noncomputable def publicStorage (w : World) (r : Ref) : List (String × Ref) :=
  (w.storage r).filter fun e => !e.1.startsWith "_"

/-- What is lowered for a reference. -/
noncomputable def contents (w : World) (r : Ref) : List Ref :=
  match w.body r with
  | .atom _ | .cls _ | .routine _ | .bound .. | .partialCall _ | .methodWrapper => []
  | .box value _ => [value]
  | .mapping entries => entries.map (·.2)
  | .members items => items
  | _ => (w.items? r).getD ((publicStorage w r).map (·.2))

def Traverses (w : World) (r c : Ref) : Prop := c ∈ contents w r

def Holds (w : World) (r c : Ref) : Prop := ∃ t, w.body r = .box c t

/-- What lowering the reference goes through. -/
def Reaches (w : World) : Ref → Ref → Prop := Relation.ReflTransGen (Traverses w)

/-- Every integer that the reference leads to has a text. -/
def IsWritten (w : World) (r : Ref) : Prop :=
  ∀ x, Reaches w r x → ∀ i, w.body x = .atom (Atom.int i) → Atom.isWritable (.int i) = true

/-- References with all their parts. No object supplies a form of its own, plain values are lowered as
they are, and so are keys; what stands in a set can be displayed. -/
structure Graph (w : World) (S : List Ref) : Prop extends w.Closed S where
  values : ∀ r ∈ S, ∀ a, w.body r = .atom a → isUnhooked w r a = true
  forms : ∀ r ∈ S, isTracked w r = true → ∃ x, w.Settles (ask.attribute? r formMethod) (.ok x) ∧
    ∀ hook, x = some hook → w.Has hook ∧ isCallable w hook = false
  keys : ∀ r ∈ S, ∀ entries, w.body r = .mapping entries → ∀ e ∈ entries, ∃ k, w.Settles (key e.1) (.ok k)
  storage : ∀ r ∈ S, w.isObject r = true → ∃ pairs, w.Settles (fields r) (.ok pairs)
  members : ∀ r ∈ S, ∀ items, w.body r = .members items → IsWritten w r

variable {w : World} {S : List Ref} {r c x : Ref}

/-! ## What is traversed -/

/-- A reference is data or is refused at once, or it is lowered by what it contains. -/
inductive Shape (w : World) (r : Ref) : Prop where
  | atom {a} : w.body r = .atom a → Shape w r
  | cls {id} : w.body r = .cls id → Shape w r
  | code : isCode w r = true → Shape w r
  | box {value t} : w.body r = .box value t → Shape w r
  | tracked : isTracked w r = true → Shape w r

theorem shape (w : World) (r : Ref) : Shape w r := by
  cases hb : w.body r with
  | atom a => exact .atom hb
  | cls c => exact .cls hb
  | box c t => exact .box hb
  | routine f => exact .code (by rw [isCode, hb])
  | bound x f => exact .code (by rw [isCode, hb])
  | partialCall f => exact .code (by rw [isCode, hb])
  | methodWrapper => exact .code (by rw [isCode, hb])
  | _ => exact .tracked (by rw [isTracked, hb])

/-- What is neither a mapping nor a set is a sequence, or has nothing but fields. -/
theorem isObject_of_tracked (ht : isTracked w r = true) (hmap : ∀ entries, w.body r ≠ .mapping entries)
    (hset : ∀ members, w.body r ≠ .members members) (hi : w.items? r = none) : w.isObject r = true := by
  unfold isTracked at ht
  unfold items? at hi
  unfold isObject
  cases hb : w.body r <;> simp_all

theorem contents_of_other (ht : isTracked w r = true) (hmap : ∀ entries, w.body r ≠ .mapping entries)
    (hset : ∀ members, w.body r ≠ .members members) :
    contents w r = (w.items? r).getD ((publicStorage w r).map (·.2)) := by
  unfold isTracked at ht
  unfold contents
  cases hb : w.body r <;> simp_all

theorem contents_box {t : Bool} (hb : w.body r = .box c t) : contents w r = [c] := by rw [contents, hb]

theorem isCode_of_box {t : Bool} (hb : w.body r = .box c t) : isCode w r = false := by rw [isCode, hb]

theorem isCode_of_tracked (ht : isTracked w r = true) : isCode w r = false := by
  unfold isTracked at ht
  unfold isCode
  cases hb : w.body r <;> simp_all

theorem contents_of_isCode (hc : isCode w r = true) : contents w r = [] := by
  unfold isCode at hc
  unfold contents
  cases hb : w.body r <;> simp_all

theorem IsWritten.contents (h : IsWritten w r) (hc : Traverses w r c) : IsWritten w c :=
  fun x hx => h x (.head hc hx)

theorem Holds.traverses (h : Holds w r c) : Traverses w r c := by
  obtain ⟨t, hb⟩ := h
  rw [Traverses, contents_box hb]
  exact List.mem_singleton_self c

theorem Traverses.part (h : Traverses w r c) : w.Part r c := by
  cases shape w r with
  | atom hb | cls hb =>
      rw [Traverses, contents, hb] at h
      cases h
  | code hcode =>
      rw [Traverses, contents_of_isCode hcode] at h
      cases h
  | box hb =>
      rw [Traverses, contents_box hb, List.mem_singleton] at h
      exact .inl (.content (h ▸ hb))
  | tracked ht =>
      by_cases hmap : ∃ entries, w.body r = .mapping entries
      · obtain ⟨entries, hb⟩ := hmap
        rw [Traverses, contents, hb] at h
        obtain ⟨e, he, rfl⟩ := List.mem_map.mp h
        exact .inl (.value (k := e.1) hb he)
      · by_cases hset : ∃ members, w.body r = .members members
        · obtain ⟨members, hb⟩ := hset
          rw [Traverses, contents, hb] at h
          exact .inr (.member hb h)
        · push Not at hmap hset
          rw [Traverses, contents_of_other ht hmap hset] at h
          cases hi : w.items? r with
          | some members =>
              rw [hi] at h
              exact .inl (.item hi h)
          | none =>
              rw [hi] at h
              obtain ⟨e, he, rfl⟩ := List.mem_map.mp h
              exact .inl (.field (isObject_of_tracked ht hmap hset hi) (n := e.1) (List.mem_of_mem_filter he))

theorem Reaches.mem (h : Reaches w r x) (hS : w.Closed S) (hr : r ∈ S) : x ∈ S :=
  hS.mem_of_parts hr (Relation.ReflTransGen.mono (fun _ _ hc => Traverses.part hc) _ _ h)

theorem Graph.mem (hG : Graph w S) (hr : r ∈ S) (h : Traverses w r c) : c ∈ S := hG.parts r hr c h.part

/-! ## Graphs that no declared code has a part in -/

/-- The object has no attribute under the name of the method. -/
def isFormless (w : World) (r : Ref) : Bool :=
  w.readsQuietly r formMethod && (w.slotValue? r formMethod).isNone

/-- The key that a plain value becomes as it is. -/
def label? (w : World) (k : Ref) : Option Data.Text :=
  match w.atom? k with
  | some (.text s) => some (.plain s)
  | some .none => some (.plain "null")
  | some (.bool b) => some (.plain (if b then "true" else "false"))
  | some (.bytes b) => some (.plain (Text.Utf8.decodeReplacing b))
  | _ => none

/-- Lowering the reference runs no declared code. -/
def isQuiet (w : World) (r : Ref) : Bool :=
  match w.body r with
  | .atom a => isUnhooked w r a
  | .mapping entries => isFormless w r && entries.all fun e => (label? w e.1).isSome
  | _ => !isTracked w r || isFormless w r && (!w.isObject r || w.StoresQuietly r)

theorem settles_key {k : Ref} {found : Data.Text} (hk : w.Has k) (h : label? w k = some found) :
    w.Settles (key k) (.ok found) := by
  refine .of_steady fun n => .get fun v hv => ?_
  rw [hv.ofLimited.atom? hk]
  unfold label? at h
  cases ha : w.atom? k with
  | none =>
    rw [ha] at h
    cases h
  | some a =>
    rw [ha] at h
    cases a <;> cases h <;> exact .pure v _

theorem settles_form (hr : w.Has r) (ht : isTracked w r = true) (h : isFormless w r = true) :
    w.Settles (Dispatch.ask.attribute? r formMethod) (.ok none) := by
  simp only [isFormless, Bool.and_eq_true, Option.isNone_iff_eq_none] at h
  have hc : ∀ c, r ≠ .cls c := fun c hc => by
    rw [hc] at ht
    cases ht
  refine Filter.eventually_atTop.mpr ⟨1, fun n hn => ?_⟩
  have hgrows := w.grows_limited n
  rw [← h.2, ← slotValue?_grows hr hgrows]
  exact steady_attribute? hn (hgrows.has hr) hc ((readsQuietly_grows hr hgrows).trans h.1)

theorem isFormless_of_isQuiet (h : isQuiet w r = true) (ht : isTracked w r = true) : isFormless w r = true := by
  unfold isTracked at ht
  unfold isQuiet isTracked at h
  cases hb : w.body r <;> simp_all

theorem storesQuietly_of_isQuiet (h : isQuiet w r = true) (ho : w.isObject r = true) : w.StoresQuietly r := by
  unfold isObject at ho
  unfold isQuiet isTracked isObject at h
  cases hb : w.body r <;> simp_all

/-- If the reference is an integer, that has a text. -/
def isShort (w : World) (r : Ref) : Bool :=
  match w.body r with
  | .atom (.number (.int i)) => Atom.isWritable (.int i)
  | _ => true

theorem graph_of_isQuiet (hs : w.registry.Sound) (hhas : ∀ r ∈ S, w.Has r) (hquiet : ∀ r ∈ S, isQuiet w r = true)
    (hparts : ∀ r ∈ S, ∀ c ∈ w.parts r, c ∈ S) (hshort : ∀ r ∈ S, isShort w r = true) : Graph w S := by
  have hS : w.Closed S :=
    .of_parts hs hhas (fun r hr ho => storesQuietly_of_isQuiet (hquiet r hr) ho) hparts
  refine { hS with values := ?_, forms := ?_, keys := ?_, storage := ?_, members := ?_ }
  · intro r hr a ha
    have hq := hquiet r hr
    rw [isQuiet, ha] at hq
    exact hq
  · intro r hr ht
    exact ⟨none, settles_form (hhas r hr) ht (isFormless_of_isQuiet (hquiet r hr) ht), fun _ h => by cases h⟩
  · intro r hr entries hb e he
    have hq := hquiet r hr
    simp only [isQuiet, hb, Bool.and_eq_true, List.all_eq_true] at hq
    obtain ⟨found, hfound⟩ := Option.isSome_iff_exists.mp (hq.2 e he)
    exact ⟨found, settles_key (hhas _ (hS.key hr hb he)) hfound⟩
  · exact fun r hr ho => ⟨_, settles_fields (storesQuietly_of_isQuiet (hquiet r hr) ho)⟩
  · intro r hr items _ x hx i hi
    have hx := hshort x (Reaches.mem hx hS hr)
    rw [isShort, hi] at hx
    exact hx

end Introspect.Lower
