import Introspect.Proofs.World.Parts
import Introspect.Conversion
import Introspect.Session.Basic
/-!
Texts of plain values that no declared class has a part in. They depend on the value alone and
settle, and so does the comparison of two such values.
-/
namespace Introspect

namespace World

/-- The object is a plain value of the very class that such values have. -/
structure IsOrdinary (w : World) (r : Ref) (a : Atom) : Prop where
  has : w.Has r
  body : w.body r = .atom a
  cls : w.classOf r = .native (atomClass a)

def Makes (b : World) (m : Act Ref) : Except Fault Atom → Prop
  | .ok a => ∀ v, b.Leads v → ∃ u r, v.Leads u ∧ m v = .ok r u ∧ u.IsOrdinary r a
  | .error fault => b.Steady m (.error fault)

theorem IsOrdinary.grows {w v : World} {r : Ref} {a : Atom} (h : w.IsOrdinary r a) (hv : w.Grows v) :
    v.IsOrdinary r a :=
  ⟨hv.has h.has, (hv.body h.has).trans h.body, (hv.classOf h.has).trans h.cls⟩

theorem IsOrdinary.atom (w : World) (a : Atom) : w.IsOrdinary (.atom a) a := ⟨trivial, rfl, rfl⟩

theorem IsOrdinary.atom?_eq {w : World} {r : Ref} {a : Atom} (h : w.IsOrdinary r a) :
    w.atom? r = some a := by simp only [atom?, h.body]

theorem makes_atom (b : World) (a : Atom) : b.Makes (Act.atom a) (.ok a) := by
  intro v hv
  unfold Act.atom
  split
  · exact ⟨v, .atom a, .refl v, rfl, .atom v a⟩
  · refine ⟨_, _, .alloc v ⟨.native (atomClass a), .atom a, [], none⟩, rfl, ?_, ?_, ?_⟩
    · simp [Has]
    · simp [body]
    · simp [classOf]

namespace Makes

variable {b : World} {m : Act Ref} {x : Except Fault Atom} {α β : Type}

theorem bind {f : Ref → Act β} {g : Atom → Except Fault β} (hm : b.Makes m x)
    (hf : ∀ a, x = .ok a → ∀ u r, b.Leads u → u.IsOrdinary r a → u.Steady (f r) (g a)) :
    b.Steady (m >>= f) (x >>= g) := by
  cases x with
  | error fault => exact Steady.bind (g := fun _ => .error fault) hm (by simp)
  | ok a =>
      refine .through fun v hv => ?_
      obtain ⟨u, r, hu, he, ho⟩ := hm v hv
      exact ⟨u, r, hu, he, hf a rfl u r (hv.trans hu) ho⟩

theorem of_steady {m : Act α} {f : α → Act Ref} {y : Except Fault α} {g : α → Except Fault Atom}
    (hm : b.Steady m y) (hf : ∀ a, y = .ok a → b.Makes (f a) (g a)) :
    b.Makes (m >>= f) (y >>= g) := by
  cases y with
  | error fault => exact Steady.bind (g := fun _ => .error fault) hm (by simp)
  | ok a =>
      change b.Makes (m >>= f) (g a)
      have hfa := hf a rfl
      cases hg : g a with
      | error fault =>
          rw [hg] at hfa
          exact Steady.bind (g := fun _ => .error fault) hm fun c hc => by cases hc; exact hfa
      | ok t =>
          rw [hg] at hfa
          intro v hv
          obtain ⟨u, hu, he⟩ := hm v hv
          obtain ⟨u', r, hu', he', ho⟩ := hfa u (hv.trans hu)
          refine ⟨u', r, hu.trans hu', ?_, ho⟩
          change EStateM.bind m f v = _
          simp only [EStateM.bind, he, ending]; exact he'

theorem get {f : World → Act Ref} (h : ∀ v, b.Leads v → v.Makes (f v) x) :
    b.Makes (MonadState.get >>= f) x := by
  cases x with
  | error fault => exact .get fun v hv => h v hv
  | ok a => exact fun v hv => h v hv v (.refl v)

end Makes

theorem makes_text (b : World) (s : String) : b.Makes (Act.text s) (.ok (.text s)) :=
  makes_atom b (.text s)

theorem steady_liftExcept (b : World) {α : Type} (x : Except Fault α) :
    b.Steady (Act.liftExcept x) x := by
  cases x with
  | error fault => exact .throw b fault
  | ok a => exact .pure b a

end World

namespace Dispatch

open World

/-- Native classes whose hooks show the content of a plain value. -/
def showsContent : Native → Bool
  | .scalar | .obj | .error _ | .slot => false
  | _ => true

/-- No declared class has the hook, and the native one that has it shows the content. -/
def isNativeHook : Option (ClassId × Entry) → Bool
  | none | some (_, .native _ .data) => true
  | some (_, .native n (.operation ..)) => showsContent n
  | some _ => false

/-- A plain value whose text and display are those of its content. -/
def hasNativeText (w : World) (r : Ref) : Bool :=
  w.isPlain r && isNativeHook (w.entryOf? (w.classOf r) "__str__") &&
    isNativeHook (w.entryOf? (w.classOf r) "__repr__")

/-- The text that the hook of a class gives to a value of this display. -/
def nativeTextOf (n : Native) (a : Atom) (shown : Except Fault String) : Except Fault String :=
  match n, a with
  | .str, .text s => .ok s
  | .decimal, a | .fraction, a => a.asText
  | _, _ => shown

def plainTextOf (w : World) (r : Ref) (a : Atom) : Except Fault String :=
  nativeTextOf ((nativeHook? w r "__str__").getD .object) a (atomDisplay w r a)

variable {b v : World} {r : Ref} {a : Atom} {ask : Ask}

theorem declaredHook?_of_isNativeHook {name : String}
    (h : isNativeHook (b.entryOf? (b.classOf r) name) = true) : declaredHook? b r name = none := by
  unfold declaredHook?
  split
  · rfl
  · rename_i hf
    cases he : b.entryOf? (b.classOf r) name with
    | none => rfl
    | some found =>
        obtain ⟨holder, e⟩ := found
        rw [he] at h
        cases e <;> simp_all [isNativeHook]

theorem showsContent_of_isNativeHook {name : String}
    (h : isNativeHook (b.entryOf? (b.classOf r) name) = true) :
    showsContent ((nativeHook? b r name).getD .object) = true := by
  unfold nativeHook?
  split
  · rename_i n _ _ _ he
    rw [he] at h; exact h
  · rfl

theorem hasNativeText_grows (hr : b.Has r) (hv : b.Grows v) :
    hasNativeText v r = hasNativeText b r := by
  simp only [hasNativeText, hv.isPlain hr, hv.classOf hr, hv.entryOf?]

theorem atomDisplay_of_ne (h : ∀ address, a ≠ .number (.declared address)) (w : World) (r : Ref) :
    atomDisplay w r a = a.display := by
  unfold atomDisplay
  split
  · exact absurd rfl (h _)
  · rfl

theorem atomDisplay_grows (hr : b.Has r) (hv : b.Grows v) : atomDisplay v r a = atomDisplay b r a := by
  have hobject : objectDisplay v r = objectDisplay b r := by
    simp only [objectDisplay, displayName, hv.classOf hr, hv.info]
  unfold atomDisplay
  rw [hobject]

theorem plainTextOf_grows (hr : b.Has r) (hv : b.Grows v) : plainTextOf v r a = plainTextOf b r a := by
  simp only [plainTextOf, nativeHook?, hv.classOf hr, hv.entryOf?, atomDisplay_grows hr hv]

theorem makes_displayBody (ask : Ask) (active : List Ref) (n : Native) (hr : b.Has r)
    (ha : b.body r = .atom a) :
    b.Makes (do Act.text (← displayBody ask active n r)) (atomDisplay b r a >>= fun s => .ok (.text s)) := by
  refine Makes.of_steady ?_ fun s _ => makes_text b s
  refine .get fun v hv => ?_
  simp only [hv.grows.body hr, ha, atomDisplay_grows hr hv.grows]
  exact steady_liftExcept v _

theorem makes_display (ask : Ask) (active : List Ref) (hr : b.Has r) (ha : b.body r = .atom a)
    (hn : hasNativeText b r = true) :
    b.Makes (display ask active r) (atomDisplay b r a >>= fun s => .ok (.text s)) := by
  refine .get fun v hv => ?_
  have hr' := hv.grows.has hr
  have ha' := (hv.grows.body hr).trans ha
  rw [← hasNativeText_grows hr hv.grows] at hn
  simp only [hasNativeText, Bool.and_eq_true] at hn
  simp only [declaredHook?_of_isNativeHook hn.2]
  refine .get fun u hu => ?_
  have hu' : hasNativeText u r = true := by
    rw [hasNativeText_grows hr' hu.grows]; simp only [hasNativeText, hn, Bool.and_self]
  simp only [hasNativeText, Bool.and_eq_true] at hu'
  have hshow := showsContent_of_isNativeHook hu'.2
  have hmake := fun n => makes_displayBody ask active n (hu.grows.has hr') ((hu.grows.body hr').trans ha')
  rw [atomDisplay_grows hr (hv.grows.trans hu.grows)] at hmake
  split
  · rename_i he; rw [he] at hshow; cases hshow
  · rename_i he; rw [he] at hshow; cases hshow
  · exact hmake _
  · exact hmake _

theorem nativeTextOf_of_ne {n : Native} {shown : Except Fault String}
    (hstr : ∀ s, n = .str → Body.atom a = .atom (.text s) → False)
    (hdec : ∀ a', n = .decimal → Body.atom a = .atom a' → False)
    (hfrac : ∀ a', n = .fraction → Body.atom a = .atom a' → False) :
    nativeTextOf n a shown = shown := by
  unfold nativeTextOf
  split
  · exact (hstr _ rfl rfl).elim
  · exact (hdec _ rfl rfl).elim
  · exact (hfrac _ rfl rfl).elim
  · rfl

theorem makes_nativeText (d : Nat) (hr : b.Has r) (ha : b.body r = .atom a)
    (hn : hasNativeText b r = true) :
    b.Makes (nativeText (perform (d + 1)) ((nativeHook? b r "__str__").getD .object) r)
      (plainTextOf b r a >>= fun s => .ok (.text s)) := by
  have hshow : showsContent ((nativeHook? b r "__str__").getD .object) = true := by
    simp only [hasNativeText, Bool.and_eq_true] at hn
    exact showsContent_of_isNativeHook hn.1.2
  simp only [plainTextOf]
  generalize (nativeHook? b r "__str__").getD .object = n at hshow
  refine .get fun v hv => ?_
  have hr' := hv.grows.has hr
  have ha' := (hv.grows.body hr).trans ha
  have hn' := (hasNativeText_grows hr hv.grows).trans hn
  rw [ha']
  split
  · cases hshow
  · cases hshow
  · cases hshow
  · rename_i s hs
    cases hs
    split
    · rename_i hc
      exact fun u hu => ⟨u, r, .refl u, rfl, IsOrdinary.grows ⟨hr', ha', hc⟩ hu.grows⟩
    · exact makes_text v s
  · rename_i hm; cases hm
  · rename_i hm; cases hm
  · rename_i hm; cases hm
  · rename_i hm
    cases hm
    exact Makes.of_steady (steady_liftExcept v _) fun s _ => makes_text v s
  · rename_i hm
    cases hm
    exact Makes.of_steady (steady_liftExcept v _) fun s _ => makes_text v s
  · rename_i hstr _ _ _ hdec hfrac
    rw [nativeTextOf_of_ne hstr hdec hfrac, ← atomDisplay_grows hr hv.grows]
    exact makes_display (perform d) [] hr' ha' hn'

/-- The text of a plain value takes two requests, one within the other. -/
theorem makes_performText (d : Nat) (hr : b.Has r) (ha : b.body r = .atom a)
    (hn : hasNativeText b r = true) :
    b.Makes (perform (d + 2) (.text r)) (plainTextOf b r a >>= fun s => .ok (.text s)) := by
  refine .get fun v hv => ?_
  have hr' := hv.grows.has hr
  rw [← hasNativeText_grows hr hv.grows] at hn
  have hstr := hn
  simp only [hasNativeText, Bool.and_eq_true] at hstr
  simp only [declaredHook?_of_isNativeHook hstr.1.2]
  refine .get fun u hu => ?_
  rw [← plainTextOf_grows hr (hv.grows.trans hu.grows)]
  exact makes_nativeText d (hu.grows.has hr')
    ((hu.grows.body hr').trans ((hv.grows.body hr).trans ha))
    ((hasNativeText_grows hr' hu.grows).trans hn)

theorem steady_content {s : String} (h : b.IsOrdinary r (.text s)) :
    b.Steady (Ask.content r) (.ok s) := by
  refine .get fun v hv => ?_
  simp only [hv.grows.body h.has, h.body]
  exact .pure v s

theorem steady_textOf (hd : 2 ≤ b.nesting) (hr : b.Has r) (ha : b.body r = .atom a)
    (hn : hasNativeText b r = true) : b.Steady (Dispatch.ask.textOf r) (plainTextOf b r a) := by
  have hmakes : b.Makes (Dispatch.ask (.text r)) (plainTextOf b r a >>= fun s => .ok (.text s)) := by
    refine .get fun v hv => ?_
    obtain ⟨d, hd⟩ := Nat.exists_eq_add_of_le' (hv.nesting ▸ hd)
    rw [hd, ← plainTextOf_grows hr hv.grows]
    exact makes_performText d (hv.grows.has hr) ((hv.grows.body hr).trans ha)
      ((hasNativeText_grows hr hv.grows).trans hn)
  have hcontent : b.Steady (Dispatch.ask.textOf r)
      ((plainTextOf b r a >>= fun s => .ok (Atom.text s)) >>= fun _ => plainTextOf b r a) := by
    refine hmakes.bind fun t ht u q _ hq => ?_
    cases hp : plainTextOf b r a with
    | error fault => rw [hp] at ht; cases ht
    | ok s =>
        rw [hp] at ht
        cases ht
        exact steady_content hq
  cases hp : plainTextOf b r a with
  | error fault => rw [hp] at hcontent; exact hcontent
  | ok s => rw [hp] at hcontent; exact hcontent

/-! ## Values of the host's own classes -/

theorem entryOf?_native (w v : World) (n : Native) (key : String) :
    w.entryOf? (.native n) key = v.entryOf? (.native n) key := by
  have hamong (ns : List Native) :
      w.entryAmong? key (ns.map .native) = v.entryAmong? key (ns.map .native) := by
    induction ns with
    | nil => rfl
    | cons m rest ih => simp only [List.map_cons, entryAmong?, info, ih]
  exact hamong n.ancestry

theorem isNativeHook_atomClass (w : World) (a : Atom) :
    isNativeHook (w.entryOf? (.native (atomClass a)) "__str__") = true ∧
      isNativeHook (w.entryOf? (.native (atomClass a)) "__repr__") = true := by
  rw [entryOf?_native w Session.initialWorld, entryOf?_native w Session.initialWorld]
  cases a with
  | number n => cases n <;> (simp only [atomClass]; decide)
  | _ => simp only [atomClass]; decide

theorem hasNativeText_of_isOrdinary {w : World} (h : w.IsOrdinary r a) :
    hasNativeText w r = true := by
  simp only [hasNativeText, isPlain, h.atom?_eq, h.cls, isNativeHook_atomClass w a, Option.isSome_some,
    Bool.and_self]

theorem plainTextOf_text {w : World} {s : String} (h : w.IsOrdinary r (.text s)) :
    plainTextOf w r (.text s) = .ok s := by
  have hhook : nativeHook? w r "__str__" = some .str := by
    rw [nativeHook?, h.cls, entryOf?_native w Session.initialWorld]
    simp only [atomClass]
    decide
  rw [plainTextOf, hhook]
  rfl

/-- A text of the host's own class is its own text. -/
theorem steady_textOf_text {s : String} (hd : 2 ≤ b.nesting) (h : b.IsOrdinary r (.text s)) :
    b.Steady (Dispatch.ask.textOf r) (.ok s) :=
  plainTextOf_text h ▸ steady_textOf hd h.has h.body (hasNativeText_of_isOrdinary h)

theorem atomDisplay_of_declared {w : World} {address : Nat} (h : w.IsOrdinary r (.number (.declared address))) :
    atomDisplay w r (.number (.declared address)) = (Atom.number (.declared address)).display := by
  simp only [atomDisplay, objectDisplay, h.cls]
  rfl

/-! ## Conversions of numbers -/

theorem declaredHook?_grows {name : String} (hr : b.Has r) (hv : b.Grows v) :
    declaredHook? v r name = declaredHook? b r name := by
  simp only [declaredHook?, hv.classOf hr, hv.entryOf?]

theorem makes_integer_of_unhooked {i : Int} (hd : 1 ≤ b.nesting) (hr : b.Has r)
    (ha : b.body r = .atom (Atom.int i)) (hh : declaredHook? b r "__int__" = none) :
    b.Makes (Dispatch.ask (.integer r)) (.ok (Atom.int i)) := by
  refine .get fun v hv => ?_
  obtain ⟨d, hd⟩ := Nat.exists_eq_add_of_le' (hv.nesting ▸ hd)
  rw [hd]
  refine .get fun u hu => ?_
  have hgrows := hv.grows.trans hu.grows
  simp only [(declaredHook?_grows hr hgrows).trans hh, (hgrows.body hr).trans ha, Atom.int]
  exact makes_atom u (Atom.int i)

theorem makes_real_of_unhooked {x : Double} (hd : 1 ≤ b.nesting) (hr : b.Has r)
    (ha : b.body r = .atom (.number (.float x))) (hh : declaredHook? b r "__float__" = none) :
    b.Makes (Dispatch.ask (.real r)) (.ok (.number (.float x))) := by
  refine .get fun v hv => ?_
  obtain ⟨d, hd⟩ := Nat.exists_eq_add_of_le' (hv.nesting ▸ hd)
  rw [hd]
  refine .get fun u hu => ?_
  have hgrows := hv.grows.trans hu.grows
  simp only [(declaredHook?_grows hr hgrows).trans hh, (hgrows.body hr).trans ha]
  exact makes_atom u (.number (.float x))

end Dispatch

end Introspect
