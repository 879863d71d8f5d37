import Introspect.Proofs.Session.Turning
/-!
The sessions that can be reached, by commands and by code that asks for the types of classes. What holds of all of
them, and what a later session still knows of an earlier one, follow from what a single turn of the world keeps.
-/
namespace Introspect

open World

namespace Session

/-- The session after its world was asked for the type of a class. -/
def asked (s : Session) (c : ClassId) : Session := { s with world := World.after (Registry.ofClass c) s.world }

/-- A session is given a command, or any code asks for the type of a class that exists. -/
inductive Happens : Session → Session → Prop where
  | command (s : Session) (c : Command) : Happens s (s.answer c).2
  | ask (s : Session) (c : ClassId) (h : s.world.isAlive c = true) : Happens s (s.asked c)

abbrev Goes : Session → Session → Prop := Relation.ReflTransGen Happens

def Reachable (s : Session) : Prop := initial.Goes s

variable {s t : Session} {c : ClassId}

theorem Reachable.asked (hs : s.Reachable) (hc : s.world.isAlive c = true) : (s.asked c).Reachable :=
  hs.tail (.ask s c hc)

/-- The session that commands lead to, one after the other. -/
def following (commands : List Command) (s : Session) : Session := commands.foldl (fun s c => (s.answer c).2) s

theorem Reachable.following (hs : s.Reachable) (commands : List Command) : (following commands s).Reachable := by
  induction commands generalizing s with
  | nil => exact hs
  | cons c rest ih => exact ih (hs.tail (.command s c))

theorem passes_asked (s : Session) (c : ClassId) : s.world.Passes (s.asked c).world :=
  ((Keeping.ofClass c).evolves s.world).passes

theorem Happens.passes (h : s.Happens t) (hs : s.world.Regular) : s.world.Passes t.world := by
  cases h with
  | command c => exact passes_answer hs c
  | ask c _ => exact passes_asked s c

/-- Where everything is regular, the world of a session that goes on passes on. -/
theorem Goes.passes (h : s.Goes t) (hs : s.world.Regular) : s.world.Passes t.world := by
  induction h with
  | refl => exact .refl
  | tail _ hstep ih => exact ih.trans (hstep.passes (ih.regular hs))

theorem regular_initial : initial.world.Regular where
  types p hp := absurd hp List.not_mem_nil
  current _ _ hd _ := by cases hd
  names p hp := absurd hp List.not_mem_nil
  dropped c hc := absurd hc List.not_mem_nil
  named p hp := absurd hp List.not_mem_nil
  lineage i hi := absurd hi (Nat.not_lt_zero i)
  leads i hi := absurd hi (Nat.not_lt_zero i)
  grounded i hi := absurd hi (Nat.not_lt_zero i)

theorem Reachable.regular (hs : s.Reachable) : s.world.Regular := (Goes.passes hs regular_initial).regular regular_initial

/-- Whatever has happened, a class that was declared is the first of its own ancestry. -/
theorem Reachable.leadsAncestry (hs : s.Reachable) (hc : ∀ i, c = .declared i → i < s.world.classes.size) :
    s.world.LeadsAncestry c :=
  hs.regular.leadsAncestry hc

theorem Reachable.remembers (hs : s.Reachable) (h : s.Goes t) : s.world.Remembers t.world :=
  (h.passes hs.regular).remembers hs.regular

/-! ## Names of classes that have ended -/

/-- Each registered name is that of a type whose class exists or that somebody holds. -/
def NamesHeld (s : Session) : Prop :=
  ∀ p ∈ s.world.registry.byName, s.holds p.2 = true ∨
    ∃ d, s.world.registry.descriptor? p.2 = some d ∧ s.world.isAlive d.cls = true

theorem holdings_withRegistry (w : World) (g : Registry) : ({ w with registry := g } : World).holdings = w.holdings := by
  funext r
  cases r with
  | cls c => cases c <;> rfl
  | routine r => cases r <;> rfl
  | _ => rfl

theorem reachWithin_congr {w v : World} (h : v.holdings = w.holdings) (rounds : Nat) (found : List Ref) :
    v.reachWithin rounds found = w.reachWithin rounds found := by
  induction rounds generalizing found with
  | zero => rfl
  | succ rounds ih => simp only [World.reachWithin, h, ih]

/-- Nobody holds more or less for what the registry says. -/
theorem holds_withRegistry (s : Session) (g : Registry) :
    ({ s with world := { s.world with registry := g } } : Session).holds = s.holds := by
  funext id
  simp only [Session.holds, Session.reaches, World.reach, Session.roots,
    reachWithin_congr (holdings_withRegistry s.world g)]

theorem namesHeld_swept (hs : s.world.Regular) : s.swept.NamesHeld := by
  intro p hp
  obtain ⟨-, hkept⟩ := List.mem_filter.mp hp
  rcases Bool.or_eq_true_iff.mp hkept with hclass | hheld
  · obtain ⟨q, hq, hqp⟩ := List.any_eq_true.mp hclass
    obtain ⟨hq, halive⟩ := List.mem_filter.mp hq
    obtain ⟨d, hd, hc⟩ := hs.types q hq
    rw [of_decide_eq_true hqp] at hd
    exact .inr ⟨d, hd, by rw [hc]; exact (isAlive_withRegistry _ _).trans halive⟩
  · exact .inl ((congrFun (holds_withRegistry s _) p.2).trans hheld)

theorem namesHeld_asked (hs : s.world.Regular) (h : s.NamesHeld) (hc : s.world.isAlive c = true) : (s.asked c).NamesHeld := by
  intro p hp
  rcases mem_byName_register hp with hp | rfl
  · have hlater := (remembers_register (w := s.world) c (s.world.info c).fullName (s.world.info c).name).descriptor? p.2
    exact (h p hp).imp (fun hheld => (congrFun (holds_withRegistry s _) p.2).trans hheld)
      fun ⟨d, hd, halive⟩ => ⟨d, hlater d hd, (isAlive_withRegistry _ _).trans halive⟩
  · obtain ⟨d, hd, hcls⟩ := Registry.descriptor?_register hs.sound c (s.world.info c).fullName (s.world.info c).name
    exact .inr ⟨d, hd, (isAlive_withRegistry _ _).trans (hcls ▸ hc)⟩

theorem Reachable.namesHeld (hs : s.Reachable) : s.NamesHeld := by
  induction hs with
  | refl => exact fun p hp => absurd hp List.not_mem_nil
  | tail hbefore hstep ih =>
      cases hstep with
      | command c =>
          have hbefore := Reachable.regular hbefore
          rw [snd_answer]
          exact namesHeld_swept (((Turning.perform c).passes _ hbefore).regular hbefore)
      | ask c hc => exact namesHeld_asked (Reachable.regular hbefore) ih hc

end Session

end Introspect
