import Introspect.Proofs.World.Settles
/-! Descriptors that are found or made, and the names of types, which last. -/
namespace Introspect

namespace Registry

open World

variable {b : World} {r : Ref}

theorem leads_of (hs : b.registry.Sound) (r : Ref) :
    ∃ u id d, b.Leads u ∧ Registry.of r b = .ok id u ∧ u.registry.descriptor? id = some d ∧
      d.cls = b.classOf r ∧ u.registry.byClass.lookup (b.classOf r) = some id := by
  obtain ⟨d, hd, hc⟩ := Registry.descriptor?_register hs (b.classOf r) (b.info (b.classOf r)).fullName
    (b.info (b.classOf r)).name
  exact ⟨_, _, d, .register b _, rfl, hd, hc, lookup_register _ _ _⟩

theorem steady_descriptor {id : Nat} {d : Descriptor} (h : b.registry.descriptor? id = some d) :
    b.Steady (descriptor id) (.ok d) := by
  refine .get fun v hv => ?_
  rw [hv.grows.descriptor? h]
  exact .pure v d

theorem steady_liveClass {id : Nat} {d : Descriptor} (h : b.registry.descriptor? id = some d)
    (ha : b.isAlive d.cls = true) : b.Steady (liveClass id) (.ok d.cls) := by
  have hclass : b.Steady (class? id) (.ok (some d.cls)) := by
    refine (steady_descriptor h).bind (g := fun _ => .ok (some d.cls)) fun d' hd => ?_
    cases hd
    refine .get fun v hv => ?_
    rw [hv.grows.isAlive, ha, if_pos rfl]
    exact .pure v _
  refine hclass.bind (g := fun _ => .ok d.cls) fun c hc => ?_
  cases hc
  exact .pure b _

/-! ## Names -/

def nameOf (g : Registry) (c : ClassId) (fullName : String) : String :=
  match (g.byClass.lookup c).bind g.descriptor? with
  | some d => d.qname
  | none => fullName

theorem nameOf_register {g : Registry} (hs : g.Sound) {c c' : ClassId} {qname name fullName : String}
    (h : c' = c → fullName = qname) :
    (g.register c qname name).1.nameOf c' fullName = g.nameOf c' fullName := by
  cases hl : g.byClass.lookup c' with
  | some id =>
      obtain ⟨d, hd, -⟩ := hs c' id hl
      simp only [nameOf, hl, lookup_register_of_some hl, Option.bind_some, hd,
        descriptor?_register_of_some hd]
  | none =>
      by_cases hc : c' = c
      · subst hc
        simp [nameOf, hl, register, Registry.descriptor?, h]
      · have hnew : (g.register c qname name).1.byClass.lookup c' = none := by
          unfold register
          split
          · exact hl
          · simpa only [List.lookup_cons, beq_false_of_ne hc] using hl
        simp only [nameOf, hl, hnew, Option.bind_none]

/-- The name that the type of an object has or will be registered under. -/
def typeName (w : World) (r : Ref) : String :=
  w.registry.nameOf (w.classOf r) (w.info (w.classOf r)).fullName

theorem nameOf_grows {w v : World} (hs : w.registry.Sound) (hv : w.Grows v) (c : ClassId) :
    v.registry.nameOf c (w.info c).fullName = w.registry.nameOf c (w.info c).fullName := by
  induction hv with
  | refl => rfl
  | limit n _ ih => exact ih
  | alloc cell _ ih => exact ih
  | register c' h ih => rw [← ih, nameOf_register (h.sound hs) fun hc => by rw [hc, h.info]]

theorem typeName_grows {w v : World} (hs : w.registry.Sound) (hr : w.Has r) (hv : w.Grows v) :
    typeName v r = typeName w r := by
  rw [typeName, hv.classOf hr, hv.info, nameOf_grows hs hv]; rfl

theorem steady_qnameOf (hs : b.registry.Sound) (hr : b.Has r) :
    b.Steady (qnameOf r) (.ok (typeName b r)) := by
  refine .through fun v hv => ?_
  have hsv := hv.grows.sound hs
  obtain ⟨u, id, d, hu, he, hd, -, hl⟩ := leads_of hsv r
  refine ⟨u, id, hu, he, (steady_descriptor hd).bind (g := fun _ => .ok (typeName b r)) fun d' hd' => ?_⟩
  cases hd'
  have hname : d.qname = typeName b r := by
    rw [← typeName_grows hs hr (hv.grows.trans hu.grows), typeName, nameOf,
      hu.grows.classOf (hv.grows.has hr), hl, Option.bind_some, hd]
  rw [hname]
  exact .pure u _

end Registry

end Introspect
