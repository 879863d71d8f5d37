import Introspect.Proofs.Session.Reachable
/-!
Types last. From the first time that a class is asked for, it has one type of its own until it ends, whatever is
declared, renamed, asked or collected meanwhile; and the names of types stay what they were.
-/
namespace Introspect

open World

namespace Registry

variable {w v : World} {c : ClassId} {id : Nat} {d : Descriptor}

theorem answered_class? (hd : w.registry.descriptor? id = some d) :
    answered (class? id) w = some (if w.isAlive d.cls then some d.cls else none) := by
  rw [answered, class?, run_bind_ok (descriptor_eq hd), run_get]
  rfl

theorem answered_qname (hd : w.registry.descriptor? id = some d) : answered (qname id) w = some d.qname := by
  rw [answered, qname, run_bind_ok (descriptor_eq hd)]
  rfl

theorem descriptor?_of_answered_qname {q : String} (h : answered (qname id) w = some q) :
    ∃ d, w.registry.descriptor? id = some d ∧ d.qname = q := by
  cases hd : w.registry.descriptor? id with
  | some d =>
      rw [answered_qname hd] at h
      exact ⟨d, rfl, Option.some.inj h⟩
  | none =>
      rw [answered, qname, descriptor, bind_assoc, run_get, hd] at h
      cases h

/-- The type that an existing class gets is about it. -/
theorem answered_class?_ofClass (hs : w.registry.Sound) (hc : w.isAlive c = true) (h : ofClass c w = .ok id v) :
    answered (class? id) v = some (some c) := by
  obtain ⟨g, id', hg, htype, hdescribes⟩ := ofClass_eq hs c
  rw [htype] at h
  cases h
  have hd : (w.registered g).registry.descriptor? id = some (w.descriptorOf c) := hdescribes
  rw [answered_class? hd, cls_descriptorOf hs, hg.isAlive, if_pos hc]

end Registry

namespace Session

open Registry

/-- The type that code gets which asks a session for the type of a class. -/
def typeOf (s : Session) (c : ClassId) : Option Nat := answered (ofClass c) s.world

/-- Types are as they should be in a session, and stay so while it goes on. -/
structure TypesLast (s : Session) : Prop where
  /-- A class has one type, which is about it, as long as it exists. -/
  one : ∀ c, s.world.isAlive c = true → ∃ id, s.typeOf c = some id ∧ ∀ t, (s.asked c).Goes t →
    t.world.isAlive c = true → t.typeOf c = some id ∧ answered (class? id) t.world = some (some c)
  distinct : ∀ c c' id, s.world.isAlive c = true → s.world.isAlive c' = true → s.typeOf c = some id →
    (s.asked c).typeOf c' = some id → c' = c
  keepsName : ∀ id q t, answered (qname id) s.world = some q → s.Goes t →
    answered (qname id) t.world = some q
  listed : ∀ q id, (q, id) ∈ s.world.registry.byName → answered (qname id) s.world = some q

variable {s t : Session} {c : ClassId} {id : Nat} {d : Descriptor}

theorem typeOf_of_lookup (h : s.world.registry.byClass.lookup c = some id) : s.typeOf c = some id := by
  change some (s.world.registry.register c (s.world.info c).fullName (s.world.info c).name).2 = some id
  simp only [Registry.register, h]

/-- Who asks for a class is given its type, which the registry knows from then on. -/
theorem exists_typeOf (hs : s.world.registry.Sound) (c : ClassId) :
    ∃ id d, s.typeOf c = some id ∧ (s.asked c).world.registry.byClass.lookup c = some id ∧
      (s.asked c).world.registry.descriptor? id = some d ∧ d.cls = c := by
  obtain ⟨d, hd, hc⟩ := Registry.descriptor?_register hs c (s.world.info c).fullName (s.world.info c).name
  exact ⟨_, d, rfl, Registry.lookup_register _ _ _, hd, hc⟩

theorem typesLast (hs : s.Reachable) : s.TypesLast where
  one c hc := by
    obtain ⟨id, d, htype, hl, hd, hcls⟩ := exists_typeOf hs.regular.sound c
    refine ⟨id, htype, fun t ht halive => ?_⟩
    have hknows := (hs.asked hc).remembers ht
    refine ⟨typeOf_of_lookup (hknows.byClass c id halive hl), ?_⟩
    rw [answered_class? (hknows.descriptor? id d hd), hcls, if_pos halive]
  distinct c c' id hc hc' htype htype' := by
    obtain ⟨id₁, d, h₁, -, hd, hcls⟩ := exists_typeOf hs.regular.sound c
    obtain ⟨id₂, d', h₂, -, hd', hcls'⟩ := exists_typeOf (hs.asked hc).regular.sound c'
    obtain rfl := Option.some.inj (h₁.symm.trans htype)
    obtain rfl := Option.some.inj (h₂.symm.trans htype')
    have halive : (s.asked c).world.isAlive c' = true := (isAlive_withRegistry _ c').trans hc'
    have hlater := ((hs.asked hc).remembers (.single (.ask _ c' halive))).descriptor? _ d hd
    rw [hd'] at hlater
    rw [← hcls, ← hcls', Option.some.inj hlater]
  keepsName id q t hq ht := by
    obtain ⟨d, hd, rfl⟩ := descriptor?_of_answered_qname hq
    exact answered_qname ((hs.remembers ht).descriptor? id d hd)
  listed q id hmem := by
    obtain ⟨d, hd, hq⟩ := hs.regular.names (q, id) hmem
    rw [answered_qname hd, hq]

/-- A class is renamed after its type was asked for, another one takes its name, and the first one ends while somebody
holds its type. -/
def renewed : Session :=
  following
    [.cls (.declare ⟨"A", "X", "X", some "app", [], none, [], false⟩),
     .cls (.hold "t" (.ofClass "A")),
     .cls (.assign "A" "__qualname__" (.value (.text "Y"))),
     .cls (.declare ⟨"B", "X", "X", some "app", [], none, [], false⟩),
     .type (.ofClass "B") .ancestry,
     .cls (.drop "A")]
    initial

theorem typesLast_renewed : renewed.TypesLast ∧ renewed.holds 0 = true ∧
    answered (qname 0) renewed.world = some "app.X" ∧ answered (class? 0) renewed.world = some none ∧
    renewed.typeOf (.declared 1) = some 1 ∧ renewed.world.registry.byName.lookup "app.X" = some 1 := by
  refine ⟨typesLast (Reachable.following .refl _), ?_⟩
  decide +kernel

end Session

end Introspect
