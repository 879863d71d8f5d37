import Introspect.Proofs.Pairs
import Introspect.Proofs.Registry.Ancestry
import Introspect.Registry.Members
import Introspect.Session.Basic
/-!
Operations looked up by name, and what dispatch finds. Dispatch stops at the first entry of the name,
whatever that is; the lookup passes over entries that are no operations.
-/
namespace Introspect.World

/-- The operation that an entry of a class stands for. -/
def operationOf? (w : World) (name : String) (c : ClassId) (e : Entry) : Option Operation :=
  if w.isOperation e then some ⟨c, name, e, (w.ancestry c).tail.any (w.hasEntry name)⟩ else none

/-- What dispatch finds under a name, if it is an operation. -/
def dispatched? (w : World) (c : ClassId) (name : String) : Option Operation :=
  (w.entryOf? c name).bind fun found => w.operationOf? name found.1 found.2

/-- An entry that is no operation comes before an operation of the name. -/
def HidesOperation (w : World) (c : ClassId) (name : String) : Prop :=
  (∃ found, w.entryOf? c name = some found ∧ w.isOperation found.2 = false) ∧
    ∃ a ∈ w.ancestry c, ∃ e, (w.info a).entryOf? name = some e ∧ w.isOperation e = true

/-- A namespace has at most one entry for each key. -/
def HasNamespaces (w : World) (c : ClassId) : Prop :=
  ∀ a ∈ w.ancestry c, Pairs.Distinct (w.info a).entries

variable {w : World} {c : ClassId} {name : String}

instance : Decidable (w.HasNamespaces c) :=
  inferInstanceAs (Decidable (∀ a ∈ w.ancestry c, Pairs.Distinct (w.info a).entries))

theorem find?_declared {entries : List (String × Entry)} (hd : Pairs.Distinct entries)
    (f : String × Entry → Operation) (hf : ∀ p, (f p).name = p.1) :
    ((entries.filter fun p => w.isOperation p.2).map f).find? (·.name = name) =
      (entries.lookup name).bind fun e => if w.isOperation e then some (f (name, e)) else none := by
  induction entries with
  | nil => rfl
  | cons p rest ih =>
      obtain ⟨key, e⟩ := p
      obtain ⟨hp, hrest⟩ := Pairs.distinct_cons.mp hd
      by_cases hk : name = key
      · subst hk
        have hnone : rest.lookup name = none := Pairs.lookup_eq_none hp
        by_cases ho : w.isOperation e = true
        · simp [ho, hf]
        · simp [ho, ih hrest, hnone]
      · by_cases ho : w.isOperation e = true
        · simp [List.lookup_cons, ho, hf, Ne.symm hk, beq_eq_false_iff_ne.mpr hk, ih hrest]
        · simp [List.lookup_cons, ho, beq_eq_false_iff_ne.mpr hk, ih hrest]

/-- A class declares what its entry of the name stands for. -/
theorem declared?_eq (hd : Pairs.Distinct (w.info c).entries) :
    w.declared? c name = ((w.info c).entryOf? name).bind (w.operationOf? name c) :=
  find?_declared hd (fun p => ⟨c, p.1, p.2, (w.ancestry c).tail.any (w.hasEntry p.1)⟩) fun _ => rfl

theorem operationOf?_eq_none {e : Entry} : w.operationOf? name c e = none ↔ w.isOperation e = false := by
  simp [operationOf?]

theorem operationAmong?_eq_none_iff {cs : List ClassId}
    (hd : ∀ a ∈ cs, Pairs.Distinct (w.info a).entries) :
    w.operationAmong? name cs = none ↔
      ∀ a ∈ cs, ∀ e, (w.info a).entryOf? name = some e → w.isOperation e = false := by
  induction cs with
  | nil => simp [operationAmong?]
  | cons a rest ih =>
      have ih := ih fun a ha => hd a (List.mem_cons_of_mem _ ha)
      rw [operationAmong?, Option.or_eq_none_iff, ih, declared?_eq (hd a List.mem_cons_self),
        List.forall_mem_cons, Option.bind_eq_none_iff]
      simp only [operationOf?_eq_none]

/-- The first operation is what the first entry stands for, unless that is no operation and one
follows it. -/
theorem operationAmong?_eq_iff {cs : List ClassId}
    (hd : ∀ a ∈ cs, Pairs.Distinct (w.info a).entries) :
    w.operationAmong? name cs =
        (w.entryAmong? name cs).bind (fun found => w.operationOf? name found.1 found.2) ↔
      ∀ found, w.entryAmong? name cs = some found → w.isOperation found.2 = false →
        ∀ a ∈ cs, ∀ e, (w.info a).entryOf? name = some e → w.isOperation e = false := by
  induction cs with
  | nil => simp [operationAmong?, entryAmong?]
  | cons a rest ih =>
      have hrest : ∀ a ∈ rest, Pairs.Distinct (w.info a).entries :=
        fun a ha => hd a (List.mem_cons_of_mem _ ha)
      have hdeclared : w.declared? a name = _ := declared?_eq (hd a List.mem_cons_self)
      cases he : (w.info a).entryOf? name with
      | none =>
          rw [he, Option.bind_none] at hdeclared
          simp only [operationAmong?, entryAmong?, he, hdeclared, Option.none_or, List.forall_mem_cons,
            reduceCtorEq, false_imp_iff, implies_true, true_and]
          exact ih hrest
      | some e =>
          rw [he, Option.bind_some] at hdeclared
          simp only [operationAmong?, entryAmong?, he, hdeclared, Option.bind_some]
          cases ho : w.isOperation e with
          | true =>
              simp only [operationOf?, ho, if_true, Option.some_or, Option.some.injEq, true_iff]
              rintro found rfl hfound
              rw [ho] at hfound
              cases hfound
          | false =>
              rw [operationOf?_eq_none.mpr ho, Option.none_or, operationAmong?_eq_none_iff hrest]
              constructor
              · intro h found _ _
                refine List.forall_mem_cons.mpr ⟨fun e' he' => ?_, h⟩
                rw [he] at he'
                cases he'
                exact ho
              · intro h a' ha'
                exact h (a, e) rfl ho a' (List.mem_cons_of_mem _ ha')

theorem operation?_eq_dispatched_iff (hn : w.HasNamespaces c) :
    w.operation? c name = w.dispatched? c name ↔ ¬ w.HidesOperation c name := by
  refine (operationAmong?_eq_iff hn).trans ⟨?_, ?_⟩
  · rintro h ⟨⟨found, hf, ho⟩, a, ha, e, he, hop⟩
    have hnot := h found hf ho a ha e he
    rw [hop] at hnot
    cases hnot
  · intro h found hf ho a ha e he
    by_contra hop
    exact h ⟨⟨found, hf, ho⟩, a, ha, e, he, by simpa using hop⟩

/-! ## Asking for an operation -/

variable {g : Registry} {type : Act Nat} {d : Descriptor}

@[simp] theorem operation?_registered : (w.registered g).operation? c name = w.operation? c name := by
  unfold operation?
  rw [ancestry_registered]
  induction w.ancestry c with
  | nil => rfl
  | cons a rest ih => simp only [operationAmong?, declared?, declared_registered, ih]

/-- The lookup answers the first operation along the ancestry. -/
theorem answered_operation? (ht : w.Identifies type d) (ha : w.isAlive d.cls = true) :
    answered (do Registry.operation? (← type) name) w = some (w.operation? d.cls name) := by
  obtain ⟨g, id, hg, htype, hd⟩ := ht
  rw [← hg.isAlive] at ha
  obtain ⟨g', ids, hg', hids, -⟩ := ancestry_eq hg.sound hd ha
  have hlive := liveClass_eq (hg'.leads.grows.descriptor? hd) (hg'.isAlive.trans ha)
  have hrun : (type >>= fun id => Registry.operation? id name) w =
      .ok (w.operation? d.cls name) (w.registered g') := by
    rw [run_bind_ok htype, Registry.operation?, run_bind_ok hids, run_bind_ok hlive, run_get]
    simp only [operation?_registered]
    rfl
  rw [answered, hrun]

/-- Asked for a name, a type answers the operation that dispatch finds exactly if no entry that is no
operation hides one. -/
theorem answered_operation?_eq_dispatched_iff (ht : w.Identifies type d) (ha : w.isAlive d.cls = true)
    (hn : w.HasNamespaces d.cls) :
    answered (do Registry.operation? (← type) name) w = some (w.dispatched? d.cls name) ↔
      ¬ w.HidesOperation d.cls name := by
  rw [answered_operation? ht ha, Option.some_inj]
  exact operation?_eq_dispatched_iff hn

/-! ## A property before a method, and behind one -/

def programClass (name : String) (ancestry : List ClassId) (entries : List (String × Entry)) : ClassInfo :=
  { name, qualname := name, modName := some "app", bases := ancestry.tail.take 1, ancestry, slots := none,
    entries }

/-- A class with an entry of its own under the name of its parent's. -/
def withParent (inherited own : Entry) : World :=
  { Session.initialWorld with
    classes := #[programClass "Base" [.declared 0, .native .object] [("size", inherited)],
      programClass "Derived" [.declared 1, .declared 0, .native .object] [("size", own)]]
    functions := #[⟨"size", .argCount, true, none, false, false⟩] }

def sizeMethod : Entry := .value (.routine (.function 0))

/-- Dispatch finds the property, the lookup the method that it hides. -/
theorem answered_operation?_property :
    answered (do Registry.operation? (← Registry.ofClass (.declared 1)) "size")
        (withParent sizeMethod (.property 0)) =
      some (some ⟨.declared 0, "size", sizeMethod, false⟩) ∧
    (withParent sizeMethod (.property 0)).dispatched? (.declared 1) "size" = none := by
  refine ⟨?_, by rfl⟩
  rw [answered_operation? (identifies_ofClass Registry.sound_empty _) (by decide)]
  rfl

def hidingProperty : World := withParent (.property 0) sizeMethod

/-- Both find the method, which hides the property. -/
theorem answered_operation?_method :
    hidingProperty.Identifies (Registry.ofClass (.declared 1)) (hidingProperty.descriptorOf (.declared 1)) ∧
    hidingProperty.isAlive (.declared 1) = true ∧ hidingProperty.HasNamespaces (.declared 1) ∧
    answered (do Registry.operation? (← Registry.ofClass (.declared 1)) "size") hidingProperty =
      some (hidingProperty.dispatched? (.declared 1) "size") := by
  have ht := identifies_ofClass (w := hidingProperty) Registry.sound_empty (.declared 1)
  have ha : hidingProperty.isAlive (.declared 1) = true := by decide
  have hn : hidingProperty.HasNamespaces (.declared 1) := by decide
  refine ⟨ht, ha, hn, (answered_operation?_eq_dispatched_iff ht ha hn).mpr ?_⟩
  rintro ⟨⟨found, hfound, ho⟩, -⟩
  cases hfound
  cases ho

end Introspect.World
