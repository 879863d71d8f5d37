import Introspect.Conversion
import Introspect.Proofs.Equality.Forms
import Introspect.Proofs.Reflect.Lookup
import Introspect.Proofs.Reflect.Parent
import Introspect.Proofs.Reflect.Storage
/-!
Overloads, and what dispatch does. The overloads of a type are gathered from all classes of its ancestry, while a
conversion goes to the first class that has an entry for the hook.
-/
namespace Introspect.World

open ClassInfo

variable {w : World} {c : ClassId} {hook : String} {hooks : List String} {counts : Entry → Bool}

/-- Classes of `builtins` and the root overload nothing. -/
def mayOverload (w : World) (a : ClassId) : Bool :=
  !(decide (a = .native .object) || decide ((w.info a).modName = some "builtins"))

/-- What dispatch finds first for the hook is of a class that may overload, and not set to nothing. -/
def Supplies (w : World) (c : ClassId) (hook : String) : Prop :=
  ∃ found, w.entryOf? c hook = some found ∧ w.mayOverload found.1 = true ∧ isNothing found.2 = false

/-- What dispatch finds first is of a class that may not overload, or set to nothing. -/
def Bars (w : World) (c : ClassId) (hook : String) : Prop :=
  ∃ found, w.entryOf? c hook = some found ∧ (w.mayOverload found.1 = false ∨ isNothing found.2 = true)

/-- Some class that may overload has an entry for the hook, wherever it stands, that counts. -/
def Offers (w : World) (counts : Entry → Bool) (c : ClassId) (hook : String) : Prop :=
  ∃ a ∈ w.ancestry c, w.mayOverload a = true ∧ ∃ e, (w.info a).entryOf? hook = some e ∧ counts e = true

/-- A hook is offered, and dispatch comes to none of those that are. -/
def Misjudges (w : World) (counts : Entry → Bool) (c : ClassId) (hooks : List String) : Prop :=
  (∃ hook ∈ hooks, w.Offers counts c hook) ∧ ∀ hook ∈ hooks, w.Offers counts c hook → w.Bars c hook

/-! ## What is offered and what is supplied -/

theorem Supplies.offers (h : w.Supplies c hook) (hcounts : ∀ e, isNothing e = false → counts e = true) :
    w.Offers counts c hook := by
  obtain ⟨⟨a, e⟩, hfound, ha, he⟩ := h
  obtain ⟨hmem, hentry⟩ := mem_of_entryAmong? hfound
  exact ⟨a, hmem, ha, e, hentry, hcounts e he⟩

/-- Where a hook is offered, dispatch finds something for it. -/
theorem Offers.supplies_iff (h : w.Offers counts c hook) : w.Supplies c hook ↔ ¬ w.Bars c hook := by
  obtain ⟨a, ha, -, e, he, -⟩ := h
  obtain ⟨found, hfound⟩ : ∃ found, w.entryOf? c hook = some found := exists_entryAmong? ha he
  simp only [Supplies, Bars, hfound, Option.some.injEq, exists_eq_left', not_or, Bool.not_eq_false, Bool.not_eq_true]

theorem offers_iff_supplies_iff (hcounts : ∀ e, isNothing e = false → counts e = true) :
    ((∃ hook ∈ hooks, w.Offers counts c hook) ↔ ∃ hook ∈ hooks, w.Supplies c hook) ↔
      ¬ w.Misjudges counts c hooks := by
  constructor
  · rintro h ⟨hoffer, hbars⟩
    obtain ⟨hook, hmem, hsupply⟩ := h.mp hoffer
    have hoffer := hsupply.offers hcounts
    exact hoffer.supplies_iff.mp hsupply (hbars hook hmem hoffer)
  · refine fun h => ⟨fun hoffer => ?_, fun ⟨hook, hmem, hsupply⟩ => ⟨hook, hmem, hsupply.offers hcounts⟩⟩
    by_contra hnone
    refine h ⟨hoffer, fun hook hmem hoffer => ?_⟩
    by_contra hbars
    exact hnone ⟨hook, hmem, hoffer.supplies_iff.mpr hbars⟩

/-! ## The overloads of a class -/

theorem foldl_union {α : Type} (p : Overloads → Bool) (hp : ∀ a b, p (a.union b) = (p a || p b)) (f : α → Overloads)
    (cs : List α) (o : Overloads) : p (cs.foldl (fun found c => found.union (f c)) o) = (p o || cs.any (p ∘ f)) := by
  induction cs generalizing o with
  | nil => exact (Bool.or_false _).symm
  | cons c rest ih => rw [List.foldl_cons, ih, hp, List.any_cons, Bool.or_assoc]; rfl

/-- What the namespace of a class overloads. -/
def ownOverloads (info : ClassInfo) : Overloads where
  text := textHooks.any fun h => (info.entryOf? h).isSome
  number := numberHooks.any fun h => (info.entryOf? h).isSome
  equality := (info.entryOf? equalityHook).any fun e => !isNothing e

theorem overloads_eq_ownOverloads {a : ClassId} :
    (w.info a).overloads (a = .native .object) =
      if w.mayOverload a then ownOverloads (w.info a) else .none := by
  rw [ClassInfo.overloads, mayOverload]
  cases decide (a = .native .object) || decide ((w.info a).modName = some "builtins") <;> rfl

/-- An overload of a class is one of a class of its ancestry that may overload. -/
theorem overloads_iff (p : Overloads → Bool) (hp : ∀ a b, p (a.union b) = (p a || p b)) (hnone : p .none = false) :
    p (w.overloads c) = true ↔
      ∃ a ∈ w.ancestry c, w.mayOverload a = true ∧ p (ownOverloads (w.info a)) = true := by
  rw [overloads, foldl_union p hp, hnone, Bool.false_or, List.any_eq_true]
  refine exists_congr fun a => and_congr_right fun _ => ?_
  rw [Function.comp_apply, overloads_eq_ownOverloads]
  cases w.mayOverload a with
  | true => simp only [if_true, true_and]
  | false => simp only [hnone, Bool.false_eq_true, if_false, false_and]

theorem exists_offers_iff :
    (∃ hook ∈ hooks, w.Offers counts c hook) ↔ ∃ a ∈ w.ancestry c, w.mayOverload a = true ∧
      (hooks.any fun hook => ((w.info a).entryOf? hook).any counts) = true := by
  simp only [Offers, List.any_eq_true, Option.any_eq_true]
  constructor
  · rintro ⟨hook, hmem, a, ha, hmay, hentry⟩
    exact ⟨a, ha, hmay, hook, hmem, hentry⟩
  · rintro ⟨a, ha, hmay, hook, hmem, hentry⟩
    exact ⟨hook, hmem, a, ha, hmay, hentry⟩

abbrev anyEntry (_ : Entry) : Bool := true

abbrev isSomething (e : Entry) : Bool := !isNothing e

theorem any_anyEntry (e : Option Entry) : e.any anyEntry = e.isSome := by
  cases e <;> rfl

theorem text_overloads_iff :
    (w.overloads c).text = true ↔ ∃ hook ∈ textHooks, w.Offers anyEntry c hook := by
  rw [overloads_iff Overloads.text (fun _ _ => rfl) rfl, exists_offers_iff]
  simp only [any_anyEntry, ownOverloads]

theorem number_overloads_iff :
    (w.overloads c).number = true ↔ ∃ hook ∈ numberHooks, w.Offers anyEntry c hook := by
  rw [overloads_iff Overloads.number (fun _ _ => rfl) rfl, exists_offers_iff]
  simp only [any_anyEntry, ownOverloads]

theorem equality_overloads_iff :
    (w.overloads c).equality = true ↔ ∃ hook ∈ [equalityHook], w.Offers isSomething c hook := by
  rw [overloads_iff Overloads.equality (fun _ _ => rfl) rfl, exists_offers_iff]
  simp only [List.any_cons, List.any_nil, Bool.or_false, ownOverloads]

variable {g : Registry} {type : Act Nat} {d : Descriptor}

theorem answered_overloads (ht : w.Identifies type d) (ha : w.isAlive d.cls = true) :
    answered (do Registry.overloads (← type)) w = some (w.overloads d.cls) := by
  obtain ⟨g, id, hg, htype, hd⟩ := ht
  rw [← hg.isAlive] at ha
  rw [answered, run_bind_ok htype, Registry.overloads, run_bind_ok (liveClass_eq hd ha)]
  exact congrArg some (hg.leads.grows.overloads _)

/-! ## The hook that a conversion calls -/

/-- What a class gives for an entry is nothing, so that a conversion goes on to the next hook. -/
def givesNothing : Entry → Bool
  | .value r | .static r => r = .atom .none
  | .native _ .data => true
  | _ => false

def givesHook (w : World) (c : ClassId) (hook : String) : Bool :=
  (w.entryOf? c hook).any fun found => !givesNothing found.2

/-- The hook that the conversion of an instance calls. -/
def calledHook? (w : World) (c : ClassId) : Option String :=
  if (w.overloads c).text then some "__str__" else numberHooks.find? (w.givesHook c)

theorem isNothing_of_not_givesNothing {e : Entry} (h : givesNothing e = false) : isNothing e = false := by
  unfold isNothing
  split
  · cases h
  · rfl

end Introspect.World

namespace Introspect.Conversion

open World Dispatch

/-- Calls the hook, taken from the class, on an object. -/
def callHook (r : Ref) (c : ClassId) : Option String → Act Ref
  | none => return .atom .none
  | some hook => do ask (.call (← ask (.attribute (.cls c) hook)) [r] [])

variable {w v : World} {r : Ref} {c holder : ClassId} {hook : String} {e : Entry} {more : Ask}

theorem bindEntry_nothing (h : givesNothing e = true) : bindEntry more none c holder hook e v = .ok (.atom .none) v := by
  cases e with
  | value f => rw [of_decide_eq_true h]; rfl
  | static f => rw [of_decide_eq_true h]; rfl
  | native n member =>
      cases member with
      | data => rfl
      | operation => cases h
  | _ => cases h

theorem bindEntry_something (h : givesNothing e = false) :
    ∃ f u, bindEntry more none c holder hook e v = .ok f u ∧ f ≠ .atom .none := by
  cases e with
  | value f => exact ⟨f, v, rfl, of_decide_eq_false h⟩
  | static f => exact ⟨f, v, rfl, of_decide_eq_false h⟩
  | native n member =>
      cases member with
      | data => cases h
      | operation b _ _ => cases b <;> exact ⟨_, _, rfl, by simp⟩
  | classLevel f => exact ⟨_, _, rfl, by simp⟩
  | property f => exact ⟨_, _, rfl, by simp⟩
  | slot name => exact ⟨_, _, rfl, by simp⟩

theorem ask_attribute_cls (c : ClassId) (hook : String) (hn : 1 ≤ v.nesting) :
    ∃ more, ask (.attribute (.cls c) hook) v = classAttribute more c hook v := by
  obtain ⟨n, hn⟩ := Nat.exists_eq_add_of_le' hn
  refine ⟨perform n, ?_⟩
  show perform v.nesting (.attribute (.cls c) hook) v = _
  rw [hn]
  rfl

/-- Hooks are no data of classes, and classes are not converted by hooks of their own. -/
structure IsHook (v : World) (hook : String) : Prop where
  data (c : ClassId) : (classData? v c hook).isNone = true
  type : v.entryOf? (.native .type) hook = none

theorem isHook_numberHooks : ∀ hook ∈ ClassInfo.numberHooks, IsHook v hook := by
  simp only [ClassInfo.numberHooks, List.forall_mem_cons, List.not_mem_nil, false_imp_iff, implies_true, and_true]
  exact ⟨⟨fun _ => rfl, rfl⟩, ⟨fun _ => rfl, rfl⟩, ⟨fun _ => rfl, rfl⟩⟩

theorem classAttribute_eq (hh : IsHook v hook) (he : v.entryOf? c hook = some (holder, e)) :
    classAttribute more c hook v = bindEntry more none c holder hook e v := by
  rw [classAttribute, run_get, Option.isNone_iff_eq_none.mp (hh.data c)]
  simp only [he]

theorem classAttribute_missing (hh : IsHook v hook) (he : v.entryOf? c hook = none) :
    classAttribute more c hook v = .error .attributeError v := by
  rw [classAttribute, run_get, Option.isNone_iff_eq_none.mp (hh.data c)]
  simp only [he, hh.type]
  rfl

/-- A hook that the class does not give is missing, or nothing. -/
theorem attribute?_of_not_givesHook (hn : 1 ≤ v.nesting) (hh : IsHook v hook) (hg : v.givesHook c hook = false) :
    ask.attribute? (.cls c) hook v = .ok none v ∨ ask.attribute? (.cls c) hook v = .ok (some (.atom .none)) v := by
  obtain ⟨more, hask⟩ := ask_attribute_cls c hook hn
  cases he : v.entryOf? c hook with
  | none => exact .inl (attribute?_eq (x := none) (hask.trans (classAttribute_missing hh he)))
  | some found =>
      rw [givesHook, he, Option.any_some, Bool.not_eq_false'] at hg
      exact .inr (attribute?_eq (x := some _) (hask.trans ((classAttribute_eq hh he).trans (bindEntry_nothing hg))))

theorem attribute_of_givesHook (hn : 1 ≤ v.nesting) (hh : IsHook v hook) (hg : v.givesHook c hook = true) :
    ∃ f u, ask (.attribute (.cls c) hook) v = .ok f u ∧ f ≠ .atom .none := by
  obtain ⟨more, hask⟩ := ask_attribute_cls c hook hn
  cases he : v.entryOf? c hook with
  | none =>
      rw [givesHook, he] at hg
      cases hg
  | some found =>
      rw [givesHook, he, Option.any_some, Bool.not_eq_true'] at hg
      rw [hask, classAttribute_eq hh he]
      exact bindEntry_something hg

theorem callNumberHook_eq (hn : 1 ≤ v.nesting) {hooks : List String} (hh : ∀ hook ∈ hooks, IsHook v hook) :
    callNumberHook r c hooks v = callHook r c (hooks.find? (v.givesHook c)) v := by
  induction hooks with
  | nil => rfl
  | cons hook rest ih =>
      have ih := ih fun hook h => hh hook (List.mem_cons_of_mem _ h)
      have hhook := hh hook List.mem_cons_self
      cases hg : v.givesHook c hook with
      | false =>
          rw [List.find?_cons_of_neg (by simp [hg]), ← ih, callNumberHook]
          rcases attribute?_of_not_givesHook hn hhook hg with hf | hf <;> rw [run_bind_ok hf]
      | true =>
          rw [List.find?_cons_of_pos (by simp [hg]), callNumberHook, callHook]
          obtain ⟨f, u, hask, hne⟩ := attribute_of_givesHook hn hhook hg
          rw [run_bind_ok (attribute?_eq (x := some f) hask), run_bind_ok hask]
          cases f with
          | atom a =>
              cases a with
              | none => exact absurd rfl hne
              | _ => rfl
          | _ => rfl

/-- The conversion of an object calls the hook that its class comes to, after asking for its type. -/
theorem value_eq (hs : w.registry.Sound) (hr : w.Has r) (ha : w.isAlive (w.classOf r) = true) (hn : 1 ≤ w.nesting) :
    ∃ u, w.Leads u ∧ value r w = callHook r (w.classOf r) (w.calledHook? (w.classOf r)) u := by
  obtain ⟨u, hu, ho⟩ := steady_overloads hs hr ha w (.refl w)
  refine ⟨u, hu, ?_⟩
  have hgives : u.givesHook (w.classOf r) = w.givesHook (w.classOf r) := by
    funext hook
    rw [givesHook, givesHook, hu.grows.entryOf?]
  rw [value, run_bind_ok ho, run_get, hu.grows.classOf hr, calledHook?]
  split
  · rfl
  · rw [callNumberHook_eq (hu.nesting ▸ hn) isHook_numberHooks, hgives]

end Introspect.Conversion

namespace Introspect.World

open ClassInfo

variable {w : World} {c : ClassId} {type : Act Nat} {d : Descriptor}

/-- The number hook that a conversion comes to first is given by a class that may not overload. -/
def TakesOthersNumber (w : World) (c : ClassId) : Prop :=
  ∃ hook, numberHooks.find? (w.givesHook c) = some hook ∧
    ∃ found, w.entryOf? c hook = some found ∧ w.mayOverload found.1 = false

theorem supplies_of_givesHook {hook : String} (h : w.givesHook c hook = true) :
    w.Supplies c hook ↔ ¬ ∃ found, w.entryOf? c hook = some found ∧ w.mayOverload found.1 = false := by
  cases he : w.entryOf? c hook with
  | none =>
      rw [givesHook, he] at h
      cases h
  | some found =>
      rw [givesHook, he, Option.any_some, Bool.not_eq_true'] at h
      simp only [Supplies, he, Option.some.injEq, exists_eq_left', isNothing_of_not_givesNothing h, and_true,
        Bool.not_eq_false]

/-- What a conversion calls is a hook of a class that may overload exactly if its text is not misjudged, and no number hook
of another class comes first where it has no text. -/
theorem calledHook?_supplies_iff :
    (∀ hook, w.calledHook? c = some hook → w.Supplies c hook) ↔
      ¬ w.Misjudges anyEntry c textHooks ∧ ((w.overloads c).text = false → ¬ w.TakesOthersNumber c) := by
  have htext := text_overloads_iff (w := w) (c := c)
  rw [← offers_iff_supplies_iff fun _ _ => rfl, ← htext]
  cases ho : (w.overloads c).text with
  | true =>
      simp only [calledHook?, ho, if_true, Option.some.injEq, forall_eq', true_iff, textHooks, List.mem_singleton,
        exists_eq_left, Bool.true_eq_false, false_imp_iff, and_true]
  | false =>
      have hnone : ¬ ∃ hook ∈ textHooks, w.Supplies c hook := by
        rintro ⟨hook, hmem, hsupply⟩
        have := htext.mpr ⟨hook, hmem, hsupply.offers fun _ _ => rfl⟩
        rw [ho] at this
        cases this
      simp only [calledHook?, ho, Bool.false_eq_true, if_false, hnone, true_and, forall_const,
        TakesOthersNumber, not_exists, not_and]
      refine forall_congr' fun hook => imp_congr_right fun hfound => ?_
      rw [supplies_of_givesHook (List.find?_some hfound)]
      simp only [not_exists, not_and]

/-- The overloads of a type are what dispatch comes to exactly where none is misjudged, and then conversions of its
instances call no hook of a class that may not overload but a number hook, which may come first. -/
theorem overloads_agree_iff (hs : w.registry.Sound) (ht : w.Identifies type d) (ha : w.isAlive d.cls = true) :
    ∃ o, answered (do Registry.overloads (← type)) w = some o ∧
      ((o.text = true ↔ ∃ hook ∈ textHooks, w.Supplies d.cls hook) ↔ ¬ w.Misjudges anyEntry d.cls textHooks) ∧
      ((o.number = true ↔ ∃ hook ∈ numberHooks, w.Supplies d.cls hook) ↔ ¬ w.Misjudges anyEntry d.cls numberHooks) ∧
      ((o.equality = true ↔ ∃ hook ∈ [equalityHook], w.Supplies d.cls hook) ↔
        ¬ w.Misjudges isSomething d.cls [equalityHook]) ∧
      ((∀ hook, w.calledHook? d.cls = some hook → w.Supplies d.cls hook) ↔
        ¬ w.Misjudges anyEntry d.cls textHooks ∧ (o.text = false → ¬ w.TakesOthersNumber d.cls)) ∧
      ∀ r, w.Has r → w.classOf r = d.cls → 1 ≤ w.nesting →
        ∃ u, w.Leads u ∧ Conversion.value r w = Conversion.callHook r d.cls (w.calledHook? d.cls) u := by
  refine ⟨_, answered_overloads ht ha, ?_, ?_, ?_, calledHook?_supplies_iff, fun r hr hc hn => ?_⟩
  · rw [text_overloads_iff]
    exact offers_iff_supplies_iff fun _ _ => rfl
  · rw [number_overloads_iff]
    exact offers_iff_supplies_iff fun _ _ => rfl
  · rw [equality_overloads_iff]
    exact offers_iff_supplies_iff fun e he => by rw [isSomething, he]; rfl
  · exact hc ▸ Conversion.value_eq hs hr (hc.symm ▸ ha) hn

/-- A class with a child, and an instance of the child. -/
def withChild (base derived : List (String × Entry)) : World :=
  { Session.initialWorld with
    classes := #[programClass "Base" [.declared 0, .native .object] base,
      programClass "Derived" [.declared 1, .declared 0, .native .object] derived]
    functions := #[⟨"__str__", .argCount, true, none, false, false⟩]
    cells := #[⟨.declared 1, .nothing, [], some []⟩] }

/-- A text that a class sets to nothing is among its overloads, and its instances do not convert. -/
theorem not_overloads_agree_silenced :
    answered (do Registry.overloads (← Registry.ofClass (.declared 1)))
        (withChild [] [("__str__", .value (.atom .none))]) = some ⟨true, false, false⟩ ∧
    ¬ (withChild [] [("__str__", .value (.atom .none))]).Supplies (.declared 1) "__str__" ∧
    failed (Conversion.value (.cell 0)) (withChild [] [("__str__", .value (.atom .none))]) = some .typeError := by
  refine ⟨by decide +kernel, ?_, by decide +kernel⟩
  rintro ⟨found, hfound, -, hsome⟩
  cases hfound
  cases hsome

def withText : World := withChild [("__str__", .value (.routine (.function 0)))] []

/-- A text of the parent is the only overload of the child, and conversions of its instances call it. -/
theorem overloads_agree_inherited :
    withText.registry.Sound ∧
    withText.Identifies (Registry.ofClass (.declared 1)) (withText.descriptorOf (.declared 1)) ∧
    withText.isAlive (.declared 1) = true ∧ withText.Has (.cell 0) ∧ 1 ≤ withText.nesting ∧
    ∃ o, answered (do Registry.overloads (← Registry.ofClass (.declared 1))) withText = some o ∧
      (o.text = true ↔ ∃ hook ∈ textHooks, withText.Supplies (.declared 1) hook) ∧
      (∀ hook, withText.calledHook? (.declared 1) = some hook → withText.Supplies (.declared 1) hook) ∧
      ∃ u, withText.Leads u ∧ Conversion.value (.cell 0) withText =
        Conversion.callHook (.cell 0) (.declared 1) (some "__str__") u := by
  have ht := identifies_ofClass (w := withText) Registry.sound_empty (.declared 1)
  have ha : withText.isAlive (.declared 1) = true := by decide
  have hr : withText.Has (.cell 0) := Nat.zero_lt_one
  have hn : 1 ≤ withText.nesting := by decide
  have hjudged : ¬ withText.Misjudges anyEntry (.declared 1) textHooks := by
    rintro ⟨⟨hook, hmem, hoffer⟩, hbars⟩
    obtain ⟨found, hfound, hbar⟩ := hbars hook hmem hoffer
    cases List.mem_singleton.mp hmem
    cases hfound
    rcases hbar with hbar | hbar <;> cases hbar
  obtain ⟨o, ho, htext, -, -, hcalls, hvalue⟩ := overloads_agree_iff Registry.sound_empty ht ha
  have hanswer : o = ⟨true, false, false⟩ := by
    have hrun : answered (do Registry.overloads (← Registry.ofClass (.declared 1))) withText =
        some ⟨true, false, false⟩ := by decide +kernel
    exact Option.some.inj (ho.symm.trans hrun)
  subst hanswer
  have hcalls := hcalls.mpr ⟨hjudged, fun h => by cases h⟩
  exact ⟨Registry.sound_empty, ht, ha, hr, hn, _, ho, htext.mpr hjudged, hcalls, hvalue _ hr rfl hn⟩

end Introspect.World
