import Introspect.Proofs.Registry.Lasting
/-!
Types found by their names. A name that is registered leads to the type that was registered last under it, any other
to the class that is bound under it. What is found is about a class that exists unless somebody holds the type of a
class that has ended.
-/
namespace Introspect

open World Dispatch

namespace Registry

variable {ask : Ask} {w v u : World} {q : String} {id : Nat} {c : ClassId} {fault : Fault}

theorem asClass?_eq_some {found : Option Ref} (h : asClass? w found = some c) :
    found = some (.cls c) ∧ w.isAlive c = true := by
  unfold asClass? at h
  split at h
  · split at h
    · cases h
      exact ⟨rfl, ‹_›⟩
    · cases h
  · cases h

/-- A name is bound to classes that exist only. -/
theorem isAlive_resolve (h : resolve ask q w = .ok (some c) v) : v.isAlive c = true := by
  obtain ⟨found, u, -, h⟩ := run_bind h
  rw [run_get] at h
  cases hc : asClass? u found with
  | none => rw [hc] at h; cases h
  | some c' => rw [hc] at h; cases h; exact (asClass?_eq_some hc).2

/-- Whatever code finding runs, the world stays regular. -/
theorem regular_of_recordFound (hw : w.Regular) (h : resolve Dispatch.ask q w = .ok (some c) v)
    (hu : recordFound Dispatch.ask q v = .ok () u) : u.Regular := by
  have hevolves : w.Evolves u := (Keeping.evolves_of_ok h).trans (Keeping.evolves_of_ok hu)
  exact hevolves.passes.regular hw

section Find

theorem find?_registered (h : w.registry.byName.lookup q = some id) : find? ask q w = .ok (some id) w := by
  rw [find?, run_get, h]
  rfl

variable (hfree : w.registry.byName.lookup q = none)

include hfree

theorem find?_unbound (h : resolve ask q w = .ok none v) : find? ask q w = .ok none v := by
  rw [find?, run_get, hfree]
  exact run_bind_ok h

theorem find?_bound (h : resolve ask q w = .ok (some c) v) (hu : recordFound ask q v = .ok () u) :
    find? ask q w = (some <$> ofClass c) u := by
  rw [find?, run_get, hfree]
  exact (run_bind_ok h).trans (run_bind_ok hu)

theorem find?_error (h : resolve ask q w = .error fault v) : find? ask q w = .error fault v := by
  rw [find?, run_get, hfree]
  exact run_bind_error h

theorem find?_unrecorded (h : resolve ask q w = .ok (some c) v) (hu : recordFound ask q v = .error fault u) :
    find? ask q w = .error fault u := by
  rw [find?, run_get, hfree]
  exact (run_bind_ok h).trans (run_bind_error hu)

/-- What a name that is not registered leads to is bound under it, and recorded. -/
theorem exists_bound (h : find? ask q w = .ok (some id) u) :
    ∃ c v v', resolve ask q w = .ok (some c) v ∧ recordFound ask q v = .ok () v' ∧ ofClass c v' = .ok id u := by
  cases hr : resolve ask q w with
  | error fault v => rw [find?_error hfree hr] at h; cases h
  | ok found v =>
      cases found with
      | none => rw [find?_unbound hfree hr] at h; cases h
      | some c =>
          cases hd : recordFound ask q v with
          | error fault v' => rw [find?_unrecorded hfree hr hd] at h; cases h
          | ok a v' =>
              rw [find?_bound hfree hr hd] at h
              cases h
              exact ⟨c, v, v', rfl, hd, rfl⟩

end Find

end Registry

namespace Session

open Registry

/-- The type registered last under a name is about a class that exists. -/
def RegistersLiving (s : Session) (q : String) : Prop :=
  ∃ id c, s.world.registry.byName.lookup q = some id ∧ answered (class? id) s.world = some (some c)

/-- Finding a name leads to types of classes that exist only: to the one registered last under the name, else to that
of the class bound under it, and to none if there is neither. -/
structure FindsLiving (s : Session) (q : String) : Prop where
  living : ∀ id w, find? ask q s.world = .ok (some id) w → ∃ c, answered (class? id) w = some (some c)
  bound : ¬ s.RegistersLiving q → ∀ c v u, resolve ask q s.world = .ok (some c) v → recordFound ask q v = .ok () u →
    find ask q s.world = ofClass c u
  unknown : ¬ s.RegistersLiving q → ∀ v, resolve ask q s.world = .ok none v →
    find? ask q s.world = .ok none v ∧ find ask q s.world = .error (.unknownType q) v

/-- Somebody holds a type of a class that has ended, and no other type was registered under its name since. -/
def HoldsEnded (s : Session) (q : String) : Prop :=
  ∃ id, s.holds id = true ∧ s.world.registry.byName.lookup q = some id ∧ answered (class? id) s.world = some none

variable {s : Session} {q : String} {id : Nat} {c : ClassId} {v u : World}

theorem findsLiving_iff (hs : s.Reachable) (q : String) : s.FindsLiving q ↔ ¬ s.HoldsEnded q := by
  refine ⟨fun h ⟨id, _, hl, hended⟩ => ?_, fun h => ?_⟩
  · obtain ⟨c, hc⟩ := h.living id s.world (find?_registered hl)
    rw [hended] at hc
    cases hc
  cases hl : s.world.registry.byName.lookup q with
  | some id =>
      obtain ⟨d, hd, -⟩ := hs.regular.names (q, id) (Pairs.mem_of_lookup hl)
      by_cases halive : s.world.isAlive d.cls = true
      · have hclass := answered_class? hd
        rw [if_pos halive] at hclass
        have hregisters : s.RegistersLiving q := ⟨id, d.cls, hl, hclass⟩
        refine ⟨fun id' w hfind => ?_, fun hnot => absurd hregisters hnot, fun hnot => absurd hregisters hnot⟩
        rw [find?_registered hl] at hfind
        cases hfind
        exact ⟨d.cls, hclass⟩
      · have hclass := answered_class? hd
        rw [if_neg halive] at hclass
        refine absurd ⟨id, (hs.namesHeld (q, id) (Pairs.mem_of_lookup hl)).resolve_right ?_, hl, hclass⟩ h
        rintro ⟨d', hd', halive'⟩
        rw [hd] at hd'
        cases hd'
        exact halive halive'
  | none =>
      refine ⟨fun id w hfind => ?_, fun _ c v u hbound hrecord => ?_, fun _ v hunbound => ⟨find?_unbound hl hunbound, ?_⟩⟩
      · obtain ⟨c, v, v', hbound, hrecord, htype⟩ := exists_bound hl hfind
        have hv := regular_of_recordFound hs.regular hbound hrecord
        have halive : v'.isAlive c = true := by
          rw [(Keeping.of_ok hrecord).isAlive]
          exact isAlive_resolve hbound
        exact ⟨c, answered_class?_ofClass hv.sound halive htype⟩
      · exact run_bind_ok ((find?_bound hl hbound hrecord).trans rfl)
      · exact run_bind_ok (find?_unbound hl hunbound)

/-- A class that is declared again after it has ended, with nobody holding its first type. -/
def redeclared : Session :=
  following
    [.cls (.declare ⟨"G", "G", "G", some "app", [], none, [], false⟩),
     .type (.ofClass "G") .itself,
     .cls (.drop "G"),
     .cls (.declare ⟨"G", "G", "G", some "app", [], none, [], false⟩)]
    initial

theorem findsLiving_redeclared : redeclared.FindsLiving "app.G" ∧
    answered (class? 0) redeclared.world = some none ∧
    answered (find ask "app.G" >>= class?) redeclared.world = some (some (.declared 1)) := by
  have hlookup : redeclared.world.registry.byName.lookup "app.G" = none := by decide +kernel
  have hreachable : redeclared.Reachable := .following .refl _
  refine ⟨(findsLiving_iff hreachable "app.G").mpr ?_, by decide +kernel⟩
  rintro ⟨id, -, hl, -⟩
  rw [hlookup] at hl
  cases hl

/-- A class that has ended while somebody holds its type. -/
def ended : Session :=
  following
    [.cls (.declare ⟨"G", "G", "G", some "app", [], none, [], false⟩),
     .cls (.hold "t" (.ofClass "G")),
     .cls (.drop "G")]
    initial

theorem not_findsLiving_ended : ended.Reachable ∧ answered (find ask "app.G") ended.world = some 0 ∧
    answered (class? 0) ended.world = some none ∧ ¬ ended.FindsLiving "app.G" := by
  have hl : ended.world.registry.byName.lookup "app.G" = some 0 := by decide +kernel
  have hclass : answered (class? 0) ended.world = some none := by decide +kernel
  refine ⟨.following .refl _, by decide +kernel, hclass, fun h => ?_⟩
  obtain ⟨c, hc⟩ := h.living 0 ended.world (find?_registered hl)
  rw [hclass] at hc
  cases hc

end Session

end Introspect
