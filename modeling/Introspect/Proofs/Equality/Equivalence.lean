import Introspect.Proofs.Equality.Aspects
/-!
Deep equality is an equivalence relation. Relations that hold only of values with matching aspects can be turned round
and composed, and so can the bisimulations that equality decides.
-/
namespace Introspect.Equality

open World Perl

/-- The relation holds of values of the graph alone, and of such with matching aspects. -/
def Consistent (w : World) (S : List Ref) (R : Ref → Ref → Prop) : Prop :=
  ∀ x y, R x y → x ∈ S ∧ y ∈ S ∧ (aspect w x).Matches R (aspect w y)

/-- One value is made as the other is, from parts that the relation holds of. Entries and attributes may come in any
order, and boxes may be marked or not. -/
inductive MadeAlike (w : World) (R : Ref → Ref → Prop) (a b : Ref) : Prop where
  | value {x : Atom} : w.classOf a = w.classOf b → w.body a = .atom x → w.body b = .atom x → MadeAlike w R a b
  | sequence {xs ys : List Ref} : w.classOf a = w.classOf b → w.body a = .sequence xs → w.body b = .sequence ys →
      List.Forall₂ R xs ys → MadeAlike w R a b
  | mapping {xs ys : List (Ref × Ref)} : w.classOf a = w.classOf b → w.body a = .mapping xs → w.body b = .mapping ys →
      xs.length = ys.length → (∀ e ∈ xs, ∃ e' ∈ ys, w.body e.1 = w.body e'.1 ∧ R e.2 e'.2) → MadeAlike w R a b
  | box {c d : Ref} {s t : Bool} : w.classOf a = w.classOf b → w.body a = .box c s → w.body b = .box d t → R c d →
      MadeAlike w R a b
  | object : w.classOf a = w.classOf b → w.isObject a = true → w.isObject b = true →
      (w.storage a).length = (w.storage b).length →
      (∀ e ∈ w.storage a, ∃ e' ∈ w.storage b, e.1 = e'.1 ∧ R e.2 e'.2) → MadeAlike w R a b

/-- Some relation holds of the two values, and of values made alike alone. Copies may share parts, or hold themselves,
where their originals do not. -/
def IsCopy (w : World) (a b : Ref) : Prop := ∃ R : Ref → Ref → Prop, R a b ∧ ∀ x y, R x y → MadeAlike w R x y

variable {w : World} {S : List Ref} {R Q : Ref → Ref → Prop} {a b c : Ref}

theorem Consistent.comp (h : Consistent w S R) (h' : Consistent w S Q) : Consistent w S (Relation.Comp R Q) := by
  rintro x z ⟨y, hxy, hyz⟩
  obtain ⟨hx, -, hm⟩ := h x y hxy
  obtain ⟨-, hz, hm'⟩ := h' y z hyz
  exact ⟨hx, hz, hm.comp hm'⟩

namespace Comparable

variable (hw : Comparable w S)
include hw

theorem matches_self (hR : ∀ c ∈ S, R c c) (ha : a ∈ S) : (aspect w a).Matches R (aspect w a) :=
  .refl (fun c hc => hR c (hw.mem_of_parts ha hc)) (hw.distinct ha)

theorem consistent_flip (h : Consistent w S R) : Consistent w S (Function.swap R) := fun x y hR => by
  obtain ⟨hy, hx, hm⟩ := h y x hR
  exact ⟨hx, hy, hm.flip (hw.distinct hy) (hw.distinct hx)⟩

/-- A bisimulation is consistent on the graph once it holds of equal values. -/
theorem consistent_of_alike (h : ∀ x y, R x y → Alike w R x y) :
    Consistent w S fun x y => x ∈ S ∧ y ∈ S ∧ (x = y ∨ R x y) := by
  rintro x y ⟨hx, hy, hxy⟩
  refine ⟨hx, hy, ?_⟩
  have hmatch : x = y ∨ (aspect w x).Matches R (aspect w y) :=
    hxy.elim .inl fun hR => (hw.alike_iff hx hy).mp (h x y hR)
  rcases hmatch with rfl | hm
  · exact hw.matches_self (fun c hc => ⟨hc, hc, .inl rfl⟩) hx
  · exact hm.imp fun c hc d hd hR => ⟨hw.mem_of_parts hx hc, hw.mem_of_parts hy hd, .inr hR⟩

theorem bisimilar_iff (ha : a ∈ S) (hb : b ∈ S) : Bisimilar w a b ↔ ∃ R, Consistent w S R ∧ R a b := by
  constructor
  · rintro ⟨R, hR, halike⟩
    exact ⟨_, hw.consistent_of_alike halike, ha, hb, .inr hR⟩
  · rintro ⟨R, hcons, hR⟩
    refine ⟨R, hR, fun x y hxy => ?_⟩
    obtain ⟨hx, hy, hm⟩ := hcons x y hxy
    exact hw.alike_of_matches hx hy hm

/-! ## Copies -/

theorem matches_of_madeAlike (hb : b ∈ S) (h : MadeAlike w R a b) :
    (aspect w a).Matches R (aspect w b) := by
  cases h with
  | value _ hba hbb =>
      rw [aspect_value hba, aspect_value hbb]
      exact .value rfl
  | sequence _ hba hbb hR =>
      rw [aspect_sequence hba, aspect_sequence hbb]
      exact .items hR
  | mapping _ hba hbb hl hR =>
      have hdistinct := distinct_textFields hw.keys hb hbb
      rw [aspect_mapping hba, aspect_mapping hbb]
      refine .fields rfl (by rw [length_textFields, length_textFields, hl]) ?_
      refine List.forall_mem_map.mpr fun e he => ?_
      obtain ⟨e', he', hkey, hR⟩ := hR e he
      refine ⟨e'.2, (Pairs.mem_iff_lookup hdistinct).mp (List.mem_map.mpr ⟨e', he', ?_⟩), hR⟩
      simp only [text?, hkey]
  | box _ hba hbb hR =>
      rw [aspect_box hba, aspect_box hbb]
      exact .content hR
  | object hc hba hbb hl hR =>
      have hdistinct : (aspect w b).Distinct := hw.distinct hb
      rw [aspect_object hbb] at hdistinct
      rw [aspect_object hba, aspect_object hbb]
      refine .fields (congrArg some hc) hl fun e he => ?_
      obtain ⟨e', he', hname, hR⟩ := hR e he
      exact ⟨e'.2, (Pairs.mem_iff_lookup hdistinct).mp (hname ▸ he'), hR⟩

theorem bisimilar_of_isCopy (ha : a ∈ S) (hb : b ∈ S) (h : IsCopy w a b) : Bisimilar w a b := by
  obtain ⟨R, hR, hmade⟩ := h
  refine (hw.bisimilar_iff ha hb).mpr ⟨fun x y => x ∈ S ∧ y ∈ S ∧ R x y, ?_, ha, hb, hR⟩
  rintro x y ⟨hx, hy, hR⟩
  refine ⟨hx, hy, (hw.matches_of_madeAlike hy (hmade x y hR)).imp fun c hc d hd hR => ?_⟩
  exact ⟨hw.mem_of_parts hx hc, hw.mem_of_parts hy hd, hR⟩

/-! ## Equality -/

theorem isEqual_iff (ha : a ∈ S) (hb : b ∈ S) : ∃ e, w.Settles (isEqual a b) (.ok e) ∧ (e = true ↔ Bisimilar w a b) := by
  classical
  have hnoset (r : Ref) (hr : r ∈ S) : w.refType? r ≠ some .set := fun hset => by
    cases hw.kinds r hr with
    | value _ hb | sequence hb | mapping hb | box hb => simp only [refType?, hb] at hset; cases hset
    | object _ _ _ _ hk => rw [hk] at hset; cases hset
  have hraise : ∀ x ∈ S, ∀ y ∈ S, hasForm w x = true → hasForm w y = true →
      ∃ e, w.Settles (compareForms x y) (.ok e) := by
    intro x hx y hy hfx hfy
    obtain ⟨_, hox⟩ := hw.exists_isOrdinary hx hfx
    obtain ⟨_, hoy⟩ := hw.exists_isOrdinary hy hfy
    obtain ⟨e, he, -⟩ := hw.settles_forms hx hy hox hoy
    exact ⟨e, he⟩
  exact ⟨decide (Bisimilar w a b), settles_bisimilar hw.graph hnoset hraise ha hb, decide_eq_true_iff⟩

theorem isEqual_true_iff (ha : a ∈ S) (hb : b ∈ S) : w.Settles (isEqual a b) (.ok true) ↔ Bisimilar w a b := by
  obtain ⟨e, he, hiff⟩ := hw.isEqual_iff ha hb
  refine ⟨fun h => hiff.mp ?_, fun h => hiff.mpr h ▸ he⟩
  cases h.unique he
  rfl

theorem bisimilar_comm (ha : a ∈ S) (hb : b ∈ S) : Bisimilar w a b ↔ Bisimilar w b a := by
  rw [hw.bisimilar_iff ha hb, hw.bisimilar_iff hb ha]
  exact ⟨fun ⟨R, hc, hR⟩ => ⟨_, hw.consistent_flip hc, hR⟩, fun ⟨R, hc, hR⟩ => ⟨_, hw.consistent_flip hc, hR⟩⟩

theorem bisimilar_trans (ha : a ∈ S) (hb : b ∈ S) (hc : c ∈ S) (h : Bisimilar w a b) (h' : Bisimilar w b c) :
    Bisimilar w a c := by
  obtain ⟨R, hR, hab⟩ := (hw.bisimilar_iff ha hb).mp h
  obtain ⟨Q, hQ, hbc⟩ := (hw.bisimilar_iff hb hc).mp h'
  exact (hw.bisimilar_iff ha hc).mpr ⟨_, hR.comp hQ, b, hab, hbc⟩

end Comparable

/-- Deep equality answers on every two values of such a graph. Each value equals its copies, itself among them, the
order of the two does not count, and what equals one of two equal values equals the other. -/
theorem isEqual_equivalence (hw : Comparable w S) :
    (∀ a ∈ S, ∀ b ∈ S, ∃ e, w.Settles (isEqual a b) (.ok e)) ∧
      (∀ a ∈ S, w.Settles (isEqual a a) (.ok true)) ∧
      (∀ a ∈ S, ∀ b ∈ S, IsCopy w a b → w.Settles (isEqual a b) (.ok true)) ∧
      (∀ a ∈ S, ∀ b ∈ S, ∀ e, w.Settles (isEqual a b) (.ok e) ↔ w.Settles (isEqual b a) (.ok e)) ∧
      ∀ a ∈ S, ∀ b ∈ S, ∀ c ∈ S, w.Settles (isEqual a b) (.ok true) → w.Settles (isEqual b c) (.ok true) →
        w.Settles (isEqual a c) (.ok true) := by
  refine ⟨fun a ha b hb => ?_, fun a ha => ?_, fun a ha b hb hcopy => ?_, fun a ha b hb e => ?_,
    fun a ha b hb c hc hab hbc => ?_⟩
  · obtain ⟨e, he, -⟩ := hw.isEqual_iff ha hb
    exact ⟨e, he⟩
  · exact (hw.isEqual_true_iff ha ha).mpr ⟨Eq, rfl, fun x y => .same⟩
  · exact (hw.isEqual_true_iff ha hb).mpr (hw.bisimilar_of_isCopy ha hb hcopy)
  · obtain ⟨e₁, he₁, hiff₁⟩ := hw.isEqual_iff ha hb
    obtain ⟨e₂, he₂, hiff₂⟩ := hw.isEqual_iff hb ha
    have hsame : e₁ = e₂ := Bool.eq_iff_iff.mpr (by rw [hiff₁, hiff₂, hw.bisimilar_comm ha hb])
    subst hsame
    exact ⟨fun h => h.unique he₁ ▸ he₂, fun h => h.unique he₂ ▸ he₁⟩
  · rw [hw.isEqual_true_iff ha hb] at hab
    rw [hw.isEqual_true_iff hb hc] at hbc
    exact (hw.isEqual_true_iff ha hc).mpr (hw.bisimilar_trans ha hb hc hab hbc)

/-! ## Records in boxes -/

/-- A mapping with a size and a box that holds the mapping. -/
def sized (address : Nat) (size : Ref) : List Cell :=
  [⟨.native .dict, .mapping [(textRef "size", size), (textRef "self", .cell (address + 1))], [], none⟩,
    ⟨.native .scalar, .box (.cell address) false, [], none⟩]

/-- Two records whose size is a text, and one whose size is the number that the text stands for. -/
def records : World :=
  { Session.initialWorld with
    cells := (sized 0 (textRef "1.0") ++ sized 2 (textRef "1.0") ++ sized 4 (intRef 1)).toArray }

def recordRefs : List Ref :=
  [.cell 0, .cell 1, .cell 2, .cell 3, .cell 4, .cell 5, textRef "size", textRef "self", textRef "1.0", intRef 1]

def recordAtoms : List Atom := [.text "size", .text "self", .text "1.0", Atom.int 1]

theorem comparable_records : Comparable records recordRefs := by
  refine ⟨graph_of_isData Registry.sound_empty (by decide) (by decide) (by decide) (by decide), fun r hr => ?_,
    textKeys_of_hasTextKeys (by decide), fun x hx y hy hpx hpy => ?_⟩
  · simp only [recordRefs, List.mem_cons, List.not_mem_nil, or_false] at hr
    rcases hr with rfl | rfl | rfl | rfl | rfl | rfl | rfl | rfl | rfl | rfl
    · exact .mapping rfl
    · exact .box rfl
    · exact .mapping rfl
    · exact .box rfl
    · exact .mapping rfl
    · exact .box rfl
    · exact .value (.text _) rfl rfl
    · exact .value (.text _) rfl rfl
    · exact .value (.text _) rfl rfl
    · exact .value (.int 1) rfl rfl
  · have hatoms : ∀ r ∈ recordRefs, records.isPlain r = true → ∃ x ∈ recordAtoms, r = .atom x := by decide
    have hanswers : ∀ x ∈ recordAtoms, ∀ y ∈ recordAtoms,
        (formsEqual x (comparedText records (.atom x) x) y (comparedText records (.atom y) y)).toBool = true := by
      decide
    obtain ⟨x, hxm, rfl⟩ := hatoms x hx hpx
    obtain ⟨y, hym, rfl⟩ := hatoms y hy hpy
    have hanswer := hanswers x hxm y hym
    have hsettles := settles_plainEqual (.atom records x) (.atom records y)
    cases he : formsEqual x (comparedText records (.atom x) x) y (comparedText records (.atom y) y) with
    | error fault => rw [he] at hanswer; cases hanswer
    | ok e => exact ⟨e, he ▸ hsettles⟩

theorem isCopy_records : IsCopy records (.cell 0) (.cell 2) := by
  refine ⟨fun x y => (x, y) ∈ [(.cell 0, .cell 2), (.cell 1, .cell 3), (textRef "1.0", textRef "1.0")], by decide, ?_⟩
  intro x y hxy
  simp only [List.mem_cons, List.not_mem_nil, or_false, Prod.mk.injEq] at hxy
  rcases hxy with ⟨rfl, rfl⟩ | ⟨rfl, rfl⟩ | ⟨rfl, rfl⟩
  · exact .mapping rfl rfl rfl rfl (by decide)
  · exact .box rfl rfl rfl (by decide)
  · exact .value rfl rfl rfl

theorem bisimilar_records : Bisimilar records (.cell 2) (.cell 4) := by
  refine (comparable_records.bisimilar_iff (by decide) (by decide)).mpr
    ⟨fun x y => (x, y) ∈ [(.cell 2, .cell 4), (.cell 3, .cell 5), (textRef "1.0", intRef 1)], fun x y hxy => ?_, by decide⟩
  simp only [List.mem_cons, List.not_mem_nil, or_false, Prod.mk.injEq] at hxy
  rcases hxy with ⟨rfl, rfl⟩ | ⟨rfl, rfl⟩ | ⟨rfl, rfl⟩
  · refine ⟨by decide, by decide, .fields rfl rfl fun e he => ?_⟩
    simp only [textFields, text?, List.map_cons, List.map_nil, List.mem_cons, List.not_mem_nil, or_false] at he
    rcases he with rfl | rfl
    · exact ⟨intRef 1, rfl, by decide⟩
    · exact ⟨.cell 5, rfl, by decide⟩
  · exact ⟨by decide, by decide, .content (by decide)⟩
  · exact ⟨by decide, by decide, .value (by decide)⟩

/-- A copy of a record equals it, and so does a record with the number that its size stands for. -/
theorem isEqual_records : records.Settles (isEqual (.cell 0) (.cell 2)) (.ok true) ∧
    records.Settles (isEqual (.cell 0) (.cell 4)) (.ok true) := by
  obtain ⟨-, -, hcopies, -, htrans⟩ := isEqual_equivalence comparable_records
  have hcopy := hcopies (.cell 0) (by decide) (.cell 2) (by decide) isCopy_records
  have hnumber := (comparable_records.isEqual_true_iff (a := .cell 2) (b := .cell 4) (by decide) (by decide)).mpr
    bisimilar_records
  exact ⟨hcopy, htrans _ (by decide) _ (by decide) _ (by decide) hcopy hnumber⟩

/-! ## Copies that are not equal -/

/-- A class below the numbers and one below the streams. -/
def offshoots : World :=
  { Session.initialWorld with
    classes := #[programClass "Count" [.declared 0, .native .numeric, .native .object] [],
      programClass "Source" [.declared 1, .native .ioBase, .native .object] []] }

def compareInstances (c : ClassId) : Act Bool := do
  let a ← Act.instantiate c .nothing
  let b ← Act.instantiate c .nothing
  isEqual a b

/-- New numbers of a class are plain values that equal themselves alone, and so do streams. Objects whose attributes
cannot be read do not compare, whatever they store. -/
theorem not_isEqual_instances :
    (∀ c ∈ [ClassId.declared 0, ClassId.declared 1], offshoots.overloads c = .none ∧
      answered (compareInstances c) offshoots = some false) ∧
    measured.classOf (.cell 2) = measured.classOf (.cell 3) ∧ measured.overloads (measured.classOf (.cell 2)) = .none ∧
    measured.dictionary? (.cell 2) = some [] ∧ measured.dictionary? (.cell 3) = some [] ∧
    failed (isEqual (.cell 2) (.cell 3)) measured = some (.host .zeroDivisionError "measured") := by
  decide +kernel

end Introspect.Equality
