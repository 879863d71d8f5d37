import Introspect.Proofs.Dispatch.NativeText
import Introspect.Proofs.Registry.Find
import Introspect.Equality
/-!
The values that objects are compared by: plain values by themselves, others by what they convert to.
Pure conversions settle, and so does the comparison of what they answer.
-/
namespace Introspect

namespace Conversion

open World

variable {b : World} {r : Ref}

theorem steady_overloads (hs : b.registry.Sound) (hr : b.Has r)
    (ha : b.isAlive (b.classOf r) = true) :
    b.Steady (overloads r) (.ok (b.overloads (b.classOf r))) := by
  refine .through fun v hv => ?_
  obtain ⟨u, id, d, hu, he, hd, hc, -⟩ := Registry.leads_of (hv.grows.sound hs) r
  have hgrows := hv.grows.trans hu.grows
  rw [hv.grows.classOf hr] at hc
  refine ⟨u, id, hu, he, .get fun v' hv' => ?_⟩
  have hlive := Registry.steady_liveClass (hv'.grows.descriptor? hd)
    (by rw [hc, (hgrows.trans hv'.grows).isAlive, ha])
  refine hlive.bind (g := fun _ => .ok (b.overloads (b.classOf r))) fun c hc' => ?_
  cases hc'
  rw [hc, (hgrows.trans hv'.grows).overloads]
  exact .pure v' _

end Conversion

namespace Equality

open World

/-- Objects whose class converts them to a text or a number. -/
def converts (w : World) (r : Ref) : Bool :=
  isValueObject w r && ((w.overloads (w.classOf r)).text || (w.overloads (w.classOf r)).number)

/-- What is compared by a form of its own: plain values, and objects that convert. -/
def hasForm (w : World) (r : Ref) : Bool := w.isPlain r || converts w r

def compareForms (a b : Ref) : Act Bool := do
  let w ← get
  Conversion.plainEqual (← converted (w.isPlain a) a) (← converted (w.isPlain b) b)

/-- The form of a reference is a plain value of this content and this text among texts, however much
the world has grown. -/
def HasForm (b : World) (r : Ref) (x : Atom) (text : Except Fault String) : Prop :=
  ∀ v, b.Leads v → ∃ u p, v.Leads u ∧ converted (v.isPlain r) r v = .ok p u ∧ u.Has p ∧
    u.body p = .atom x ∧ u.Steady (Conversion.comparisonText p) text

def FormIs (w : World) (r : Ref) (x : Atom) (text : Except Fault String) : Prop :=
  ∀ᶠ n in Filter.atTop, HasForm (w.limited n) r x text

/-- The comparison of two plain values by their contents and their texts. -/
def formsEqual (x : Atom) (s : Except Fault String) (y : Atom) (t : Except Fault String) :
    Except Fault Bool := do
  match ← x.compare y with
  | .settled equal => return equal
  | .byText => return (← s) = (← t)

variable {b w : World} {p q r : Ref} {x y : Atom} {s t : Except Fault String}

theorem steady_plainEqual (hp : b.Has p) (hx : b.body p = .atom x)
    (hs : b.Steady (Conversion.comparisonText p) s) (hq : b.Has q) (hy : b.body q = .atom y)
    (ht : b.Steady (Conversion.comparisonText q) t) :
    b.Steady (Conversion.plainEqual p q) (formsEqual x s y t) := by
  refine .get fun v hv => ?_
  simp only [World.atom?, hv.grows.body hp, hv.grows.body hq, hx, hy]
  refine (steady_liftExcept v _).bind fun c hc => ?_
  cases c with
  | settled equal => exact .pure v equal
  | byText =>
      exact (hs.mono hv).bind fun s _ => (ht.mono hv).bind fun t _ => .pure v (decide (s = t))

theorem steady_compareForms (hp : b.Has p) (hq : b.Has q) (hx : HasForm b p x s)
    (hy : HasForm b q y t) : b.Steady (compareForms p q) (formsEqual x s y t) := by
  refine .get fun v hv => .through fun v' hv' => ?_
  obtain ⟨u, p', hu, he, hhas, hbody, htext⟩ := hx v' (hv.trans hv')
  rw [hv'.grows.isPlain (hv.grows.has hp)] at he
  refine ⟨u, p', hu, he, .through fun u₁ hu₁ => ?_⟩
  obtain ⟨u', q', hu', he', hhas', hbody', htext'⟩ := hy u₁ (((hv.trans hv').trans hu).trans hu₁)
  rw [((hv'.trans hu).trans hu₁).grows.isPlain (hv.grows.has hq)] at he'
  have hgrow := hu₁.trans hu'
  exact ⟨u', q', hu', he', steady_plainEqual (hgrow.grows.has hhas)
    ((hgrow.grows.body hhas).trans hbody) (htext.mono hgrow) hhas' hbody' htext'⟩

theorem settles_compareForms (hp : w.Has p) (hq : w.Has q) (hx : FormIs w p x s)
    (hy : FormIs w q y t) : w.Settles (compareForms p q) (formsEqual x s y t) := by
  refine (hx.and hy).mono fun n h => ?_
  exact steady_compareForms ((w.grows_limited n).has hp) ((w.grows_limited n).has hq) h.1 h.2

/-! ## Plain values -/

/-- The text among texts of a plain value: bytes are read as UTF-8. -/
def comparedText (w : World) (r : Ref) : Atom → Except Fault String
  | .bytes content => .ok (Text.Utf8.decodeReplacing content)
  | x => Dispatch.plainTextOf w r x

theorem steady_comparisonText (hd : 2 ≤ b.nesting) (hr : b.Has r) (hx : b.body r = .atom x)
    (hn : Dispatch.hasNativeText b r = true) :
    b.Steady (Conversion.comparisonText r) (comparedText b r x) := by
  refine .get fun v hv => ?_
  simp only [World.atom?, hv.grows.body hr, hx]
  have htext := (Dispatch.steady_textOf hd hr hx hn).mono hv
  cases x with
  | bytes content => exact .pure v _
  | _ => exact htext

theorem formIs_of_hasNativeText (hr : w.Has r) (hx : w.body r = .atom x)
    (hn : Dispatch.hasNativeText w r = true) : FormIs w r x (comparedText w r x) := by
  refine Filter.eventually_atTop.mpr ⟨2, fun n hd => ?_⟩
  have hb := w.grows_limited n
  have hcompared : comparedText (w.limited n) r x = comparedText w r x := by
    cases x with
    | bytes _ => rfl
    | _ => exact Dispatch.plainTextOf_grows hr hb
  intro v hv
  have hplain : v.isPlain r = true := by
    simp only [World.isPlain, World.atom?, hv.ofLimited.body hr, hx, Option.isSome_some]
  refine ⟨v, r, .refl v, by rw [hplain]; rfl, hv.ofLimited.has hr, (hv.ofLimited.body hr).trans hx, ?_⟩
  rw [← hcompared]
  exact (steady_comparisonText hd (hb.has hr) ((hb.body hr).trans hx)
    ((Dispatch.hasNativeText_grows hr hb).trans hn)).mono hv

end Equality

end Introspect
