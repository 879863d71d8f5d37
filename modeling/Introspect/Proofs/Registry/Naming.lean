import Introspect.Proofs.Log.Writing
import Introspect.Proofs.Reflect.Overloads
import Introspect.Proofs.Registry.Membership
import Introspect.Proofs.Text.Parts
/-!
Types found by the qualified names of their classes. A name does not tell where its module ends; it leads to a class bound
under it where the longest module that it begins with is the one that binds the class.
-/
namespace Introspect

open World Dispatch Registry

variable {ask : Ask} {w v u : World} {q m first name : String} {names rest : List String} {c outer : ClassId} {id : Nat}
  {s : Session}

theorem World.Passes.nesting (h : w.Passes v) : v.nesting = w.nesting := by
  induction h with
  | refl => rfl
  | tail _ hstep ih =>
      cases hstep with
      | acts h => exact (Evolves.nesting (.single h)).trans ih
      | _ => exact ih

theorem Session.Reachable.nesting (hs : s.Reachable) : s.world.nesting = Session.nestingLimit :=
  (Session.Goes.passes hs Session.regular_initial).nesting

namespace Registry

/-! ## Classes bound under names -/

/-- The names lead from a class to a class nested in it, each naming a class in the one before. -/
inductive Nests (w : World) : ClassId → List String → ClassId → Prop where
  | here (c : ClassId) : Nests w c [] c
  | into {outer holder inner c : ClassId} {name : String} {rest : List String} (hdata : classData? w outer name = none)
      (hentry : w.entryOf? outer name = some (holder, .value (.cls inner))) (h : Nests w inner rest c) :
      Nests w outer (name :: rest) c

/-- The names lead from a module to a class. -/
inductive Holds (w : World) (m : String) : List String → ClassId → Prop where
  | mk {first : String} {rest : List String} {outer c : ClassId} (hfirst : inModule? w m first = some (.cls outer))
      (h : Nests w outer rest c) : Holds w m (first :: rest) c

theorem holds_inner {holder inner : ClassId} {first name : String} (hfirst : inModule? w m first = some (.cls outer))
    (hdata : classData? w outer name = none) (hentry : w.entryOf? outer name = some (holder, .value (.cls inner))) :
    Holds w m [first, name] inner := .mk hfirst (.into hdata hentry (.here inner))

/-- A qualified name begins with a module that is loaded; the names are the rest. -/
structure Begins (w : World) (q m : String) (names : List String) : Prop where
  loaded : isModule w m = true
  parts : Text.parts q = Text.parts m ++ names
  ne_nil : names ≠ []

/-- A class is bound under a qualified name where the name looks for it: in the longest module that it begins with, or
without a module among the built-in names. -/
inductive Bound (w : World) (q : String) (c : ClassId) : Prop where
  | builtin (hparts : Text.parts q = [q]) (hne : q ≠ "") (h : Holds w "builtins" [q] c)
  | within {m : String} {names : List String} (hm : Begins w q m names)
      (hlongest : ∀ m' names', Begins w q m' names' → names.length ≤ names'.length) (h : Holds w m names c)

/-! ## Following names -/

theorem attribute?_nested {holder inner : ClassId} (hn : 1 ≤ w.nesting) (hdata : classData? w outer name = none)
    (hentry : w.entryOf? outer name = some (holder, .value (.cls inner))) :
    Dispatch.ask.attribute? (.cls outer) name w = .ok (some (.cls inner)) w := by
  obtain ⟨more, hask⟩ := Conversion.ask_attribute_cls outer name hn
  apply attribute?_eq (x := some _)
  rw [hask, classAttribute, run_get]
  simp only [hdata, hentry]
  rfl

theorem Nests.follow (hn : 1 ≤ w.nesting) (h : Nests w outer names c) :
    follow Dispatch.ask names (some (.cls outer)) w = .ok (some (.cls c)) w := by
  induction h with
  | here c => rfl
  | into hdata hentry _ ih => exact (run_bind_ok (attribute?_nested hn hdata hentry)).trans ih

theorem Holds.followIn (hn : 1 ≤ w.nesting) (h : Holds w m names c) :
    followIn Dispatch.ask m names w = .ok (some (.cls c)) w := by
  cases h with
  | mk hfirst h =>
      rw [Registry.followIn, run_get, hfirst]
      exact h.follow hn

/-- The longest beginning of a name that is a module decides. -/
theorem followWithin_longest {parts : List String} {k n : Nat} (hk : 0 < k) (hkn : k ≤ n)
    (hmodule : isModule w (".".intercalate (parts.take k)) = true)
    (hlonger : ∀ j, k < j → j ≤ n → isModule w (".".intercalate (parts.take j)) = false) :
    followWithin ask parts n w = followIn ask (".".intercalate (parts.take k)) (parts.drop k) w := by
  induction n with
  | zero => omega
  | succ n ih =>
      rw [followWithin, run_get]
      rcases Nat.eq_or_lt_of_le hkn with rfl | hlt
      · rw [if_pos hmodule]
      · rw [if_neg (by simp [hlonger (n + 1) hlt (Nat.le_refl _)])]
        apply ih (by omega)
        intro j hj hjn
        exact hlonger j hj (by omega)

theorem locate_of_parts (h : (Text.parts q).length ≠ 1) :
    locate ask q = followWithin ask (Text.parts q) ((Text.parts q).length - 1) := by
  rw [locate]
  split
  · simp_all
  · rfl

theorem Begins.locate (hm : Begins w q m names)
    (hlongest : ∀ m' names', Begins w q m' names' → names.length ≤ names'.length) :
    locate ask q w = followIn ask m names w := by
  have hlength : (Text.parts q).length = (Text.parts m).length + names.length := by rw [hm.parts, List.length_append]
  have hnames : 0 < names.length := List.length_pos_iff.mpr hm.ne_nil
  have hpos : 0 < (Text.parts m).length := List.length_pos_iff.mpr (Text.parts_ne_nil m)
  have htake : (Text.parts q).take (Text.parts m).length = Text.parts m := by rw [hm.parts, List.take_left]
  have hdrop : (Text.parts q).drop (Text.parts m).length = names := by rw [hm.parts, List.drop_left]
  rw [locate_of_parts (by omega), followWithin_longest hpos (by omega), htake, hdrop, Text.intercalate_parts]
  · rw [htake, Text.intercalate_parts]
    exact hm.loaded
  · intro j hj hjn
    apply Bool.eq_false_iff.mpr
    intro hloaded
    have hbegins : Begins w q (".".intercalate ((Text.parts q).take j)) ((Text.parts q).drop j) := by
      refine ⟨hloaded, ?_, ?_⟩
      · rw [Text.parts_intercalate_take (by omega), List.take_append_drop]
      · rw [List.ne_nil_iff_length_pos, List.length_drop]
        omega
    have hle := hlongest _ _ hbegins
    rw [List.length_drop] at hle
    omega

/-- Only beginnings of a name have to be looked at to see which module is the longest. -/
theorem longest_of_take {n : Nat} (h : ∀ j, n < j → j < (Text.parts q).length →
    isModule w (".".intercalate ((Text.parts q).take j)) = false) {m' : String} {names' : List String}
    (hm : Begins w q m' names') : (Text.parts q).length - n ≤ names'.length := by
  have hlength : (Text.parts q).length = (Text.parts m').length + names'.length := by rw [hm.parts, List.length_append]
  have hnames : 0 < names'.length := List.length_pos_iff.mpr hm.ne_nil
  by_contra hlt
  have hloaded := h (Text.parts m').length (by omega) (by omega)
  rw [hm.parts, List.take_left, Text.intercalate_parts, hm.loaded] at hloaded
  cases hloaded

theorem Bound.locate (hn : 1 ≤ w.nesting) (h : Bound w q c) : locate Dispatch.ask q w = .ok (some (.cls c)) w := by
  cases h with
  | within hm hlongest h => exact (hm.locate hlongest).trans (h.followIn hn)
  | builtin hparts hne h =>
      cases h with
      | mk hfirst h =>
          cases h
          rw [Registry.locate, hparts]
          simp only [if_neg hne]
          rw [run_get, hfirst]
          rfl

theorem Bound.resolve (hn : 1 ≤ w.nesting) (halive : w.isAlive c = true) (h : Bound w q c) :
    resolve Dispatch.ask q w = .ok (some c) w := by
  rw [Registry.resolve, run_bind_ok (h.locate hn), run_get, asClass?, if_pos halive]
  rfl

/-! ## Finding the type of a class -/

/-- Asking for the type of a class once more finds the same type and changes nothing. -/
theorem ofClass_again (hl : w.registry.byClass.lookup c = some id) : ofClass c w = .ok id w := by
  have hregister : w.registry.register c (w.info c).fullName (w.info c).name = (w.registry, id) := by
    simp only [Registry.register, hl]
  have hrun : ofClass c w = .ok (w.registry.register c (w.info c).fullName (w.info c).name).2
      { w with registry := (w.registry.register c (w.info c).fullName (w.info c).name).1 } := rfl
  rw [hrun, hregister]

theorem ofClass_ofClass (h : ofClass c w = .ok id v) : ofClass c v = .ok id v := by
  apply ofClass_again
  cases h
  exact lookup_register c (w.info c).fullName (w.info c).name

theorem not_registers_of_free (h : w.registry.byName.lookup q = none) : ¬ Registers w q c := by
  rintro ⟨id, d, hl, -⟩
  rw [h] at hl
  cases hl

/-- A name that is registered for no other class leads to the type of the class. -/
theorem find_registered (hw : w.Regular) (halive : w.isAlive c = true) (hl : w.registry.byName.lookup q = some id)
    (honly : ∀ b, Registers w q b → b = c) : find ask q w = .ok id w ∧ ofClass c w = .ok id w := by
  obtain ⟨d, hd, -⟩ := hw.names (q, id) (Pairs.mem_of_lookup hl)
  have hc : d.cls = c := honly d.cls ⟨id, d, hl, hd, rfl⟩
  subst hc
  constructor
  · rw [find, run_bind_ok (find?_registered hl)]
    rfl
  · exact ofClass_again (hw.current id d hd halive)

end Registry

namespace Session

/-- Finding a class by its qualified name gives the type that the class has, registered before or not: where the class
is bound under the name, no other class is registered under it, and the record of a lookup can be written. -/
theorem find_fullName (hs : s.Reachable) (halive : s.world.isAlive c = true)
    (hbound : Bound s.world (s.world.info c).fullName c)
    (honly : ∀ b, Registers s.world (s.world.info c).fullName b → b = c)
    (hrecord : s.world.registry.byName.lookup (s.world.info c).fullName = none →
      ∃ u, recordFound Dispatch.ask (s.world.info c).fullName s.world = .ok () u) :
    ∃ id u, find Dispatch.ask (s.world.info c).fullName s.world = .ok id u ∧ ofClass c u = .ok id u := by
  generalize (s.world.info c).fullName = q at hbound honly hrecord ⊢
  cases hl : s.world.registry.byName.lookup q with
  | some id => exact ⟨id, s.world, find_registered hs.regular halive hl honly⟩
  | none =>
      have hn : 1 ≤ s.world.nesting := by
        rw [hs.nesting]
        decide
      have hresolve := hbound.resolve hn halive
      obtain ⟨v, hv⟩ := hrecord hl
      have hsound := (regular_of_recordFound hs.regular hresolve hv).sound
      obtain ⟨g, id, -, htype, -⟩ := ofClass_eq hsound c
      refine ⟨id, v.registered g, ?_, ofClass_ofClass htype⟩
      rw [find, run_bind_ok ((find?_bound hl hresolve hv).trans (run_map_ok htype))]
      rfl

/-- A class nested in another one, next to a module whose name begins alike. -/
def nested : Session :=
  following
    [.cls (.declare ⟨"O", "Outer", "Outer", some "app", [], none, [], false⟩),
     .cls (.declare ⟨"I", "Inner", "Outer.Inner", some "app", [], none, [], false⟩),
     .cls (.bind "app.outer" "x" (.atom .none))]
    initial

theorem find_fullName_nested : ∃ id u, find Dispatch.ask (nested.world.info (.declared 1)).fullName nested.world = .ok id u ∧
    ofClass (.declared 1) u = .ok id u := by
  have hname : (nested.world.info (.declared 1)).fullName = "app.Outer.Inner" := by decide +kernel
  have hfree : nested.world.registry.byName.lookup "app.Outer.Inner" = none := by decide +kernel
  have hbegins : Begins nested.world "app.Outer.Inner" "app" ["Outer", "Inner"] :=
    ⟨by decide +kernel, by decide, by decide⟩
  have houter : inModule? nested.world "app" "Outer" = some (.cls (.declared 0)) := by decide +kernel
  have hinner : nested.world.entryOf? (.declared 0) "Inner" = some (.declared 0, .value (.cls (.declared 1))) := by
    decide +kernel
  have hbound : Bound nested.world "app.Outer.Inner" (.declared 1) := by
    apply Bound.within hbegins _ (holds_inner houter rfl hinner)
    intro m' names' hm
    apply longest_of_take (n := 1) _ hm
    intro j hj hjn
    have hlength : (Text.parts "app.Outer.Inner").length = 3 := by decide
    obtain rfl : j = 2 := by omega
    decide +kernel
  apply find_fullName (.following .refl _) (by decide +kernel)
  · exact hname ▸ hbound
  · intro b hb
    exact absurd (hname ▸ hb) (not_registers_of_free hfree)
  · intro _
    apply answered_iff.mp
    decide +kernel

/-- A class is bound under its qualified name, no class was ever registered under it, its lookup could be recorded, and
yet it is not found. -/
structure Overlooks (s : Session) (q m : String) (names : List String) (c : ClassId) : Prop where
  reachable : s.Reachable
  alive : s.world.isAlive c = true
  fullName : (s.world.info c).fullName = q
  holds : Holds s.world m names c
  unregistered : ∀ d ∈ s.world.registry.descriptors.toList, d.qname ≠ q
  records : ∃ u, recordFound Dispatch.ask q s.world = .ok () u
  unknown : failed (find Dispatch.ask q) s.world = some (.unknownType q)

/-- A class nested in another one, whose name is that of a module, too. -/
def overlapped : Session :=
  following
    [.cls (.declare ⟨"O", "Outer", "Outer", some "app", [], none, [], false⟩),
     .cls (.declare ⟨"I", "Inner", "Outer.Inner", some "app", [], none, [], false⟩),
     .cls (.bind "app.Outer" "x" (.atom .none))]
    initial

/-- A class nested in another one, both among the built-in classes. -/
def builtinNested : Session :=
  following
    [.cls (.declare ⟨"I", "Inner", "Outer.Inner", some "builtins", [], none, [], false⟩),
     .cls (.declare ⟨"O", "Outer", "Outer", some "builtins", [], none, [("Inner", .nested "I")], false⟩),
     .cls (.bind "builtins" "Outer" (.cls "O"))]
    initial

/-- A longer module hides what a shorter one binds, and no module is looked for in front of a built-in class. -/
theorem overlooks_nested : Begins overlapped.world "app.Outer.Inner" "app" ["Outer", "Inner"] ∧
    overlapped.Overlooks "app.Outer.Inner" "app" ["Outer", "Inner"] (.declared 1) ∧
    builtinNested.Overlooks "Outer.Inner" "builtins" ["Outer", "Inner"] (.declared 0) := by
  have houter : inModule? overlapped.world "app" "Outer" = some (.cls (.declared 0)) := by decide +kernel
  have hinner : overlapped.world.entryOf? (.declared 0) "Inner" = some (.declared 0, .value (.cls (.declared 1))) := by
    decide +kernel
  have hbuiltin : inModule? builtinNested.world "builtins" "Outer" = some (.cls (.declared 1)) := by decide +kernel
  have hentry : builtinNested.world.entryOf? (.declared 1) "Inner" = some (.declared 1, .value (.cls (.declared 0))) := by
    decide +kernel
  refine ⟨⟨by decide +kernel, by decide, by decide⟩, ?_, ?_⟩
  · constructor
    · exact .following .refl _
    · decide +kernel
    · decide +kernel
    · exact holds_inner houter rfl hinner
    · decide +kernel
    · exact answered_iff.mp (by decide +kernel)
    · decide +kernel
  · constructor
    · exact .following .refl _
    · decide +kernel
    · decide +kernel
    · exact holds_inner hbuiltin rfl hentry
    · decide +kernel
    · exact answered_iff.mp (by decide +kernel)
    · decide +kernel

end Session

end Introspect
