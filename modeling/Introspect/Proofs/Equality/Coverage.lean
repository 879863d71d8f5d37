import Introspect.Proofs.Equality.Aspects
import Introspect.Proofs.Reflect.Coverage
import Introspect.Proofs.Reflect.Lookup
/-!
Deep equality of two objects that differ in one place. It sees the difference exactly if the fields show that place, so
that two objects are equal that differ where no name leads.
-/
namespace Introspect.Equality

open World

/-- Two objects whose class overloads nothing and that hold nothing but fields. -/
structure HoldFields (w : World) (a b : Ref) : Prop where
  left : w.isObject a = true
  right : w.isObject b = true
  sound : w.registry.Sound
  alive : w.isAlive (w.classOf a) = true
  hookless : w.overloads (w.classOf a) = .none
  shape : ∃ kind, (kind = .hash ∨ kind = .array) ∧ w.refType? a = some kind ∧ w.refType? b = some kind

/-- Two plain values that are not equal. -/
structure Unequal (w : World) (x y : Ref) : Prop where
  ne : x ≠ y
  left : w.isPlain x = true
  right : w.isPlain y = true
  answer : w.Settles (Conversion.plainEqual x y) (.ok false)

variable {w t : World} {recur : Ref → Ref → Visit Bool} {recur' : Ref → Ref → Recall Bool} {kind : RefType}
  {a b x y : Ref} {place : Place}

theorem isPlain_of_isObject {r : Ref} (h : w.isObject r = true) : w.isPlain r = false :=
  not_isPlain_of_isValueObject (isValueObject_of_isObject h)

/-- The contents of objects are their fields, whichever shape they have. -/
theorem follows_contents_of_isObject {p : Recall Bool} (ht : w.Grows t) (ha : w.Has a)
    (hoa : w.isObject a = true) (hkind : kind = .hash ∨ kind = .array) (h : t.Follows (objects recur a b) p) :
    t.Follows (contents recur kind a b) p := by
  refine .getWorld fun v hv => ?_
  have hgrow := ht.trans hv.grows
  rw [hgrow.body ha, hgrow.items? ha, items?_of_isObject hoa]
  unfold isObject at hoa
  rcases hkind with rfl | rfl
  · cases hbody : w.body a <;> first | exact h.mono hv | (rw [hbody] at hoa; cases hoa)
  · exact h.mono hv

/-- Objects that no hook compares are compared as references. -/
theorem follows_compare_of_isObject {p : Recall Bool} (h : HoldFields w a b) (ht : w.Grows t) (hne : a ≠ b)
    (hc : w.classOf a = w.classOf b) (ha : w.Has a) (hb : w.Has b)
    (hp : t.Follows (references recur a b) p) : t.Follows (compare recur a b) p := by
  have hnone {r : Ref} (hr : w.classOf a = w.classOf r) : w.overloads (w.classOf r) = .none := hr ▸ h.hookless
  have hconverts {r : Ref} (hr : w.classOf a = w.classOf r) : converts w r = false := by
    rw [converts, hnone hr]
    simp [Overloads.none]
  unfold compare
  rw [if_neg hne]
  refine .getWorld fun v hv => ?_
  have hgrow := ht.trans hv.grows
  rw [hgrow.isPlain ha, hgrow.isPlain hb, isPlain_of_isObject h.left, isPlain_of_isObject h.right]
  have hequality {r : Ref} (hr : w.Has r) (hcr : w.classOf a = w.classOf r) : v.Steady (overloadsEquality r) (.ok false) :=
    steady_overloadsEquality h.sound hgrow hr (fun _ => hcr ▸ h.alive) fun _ => by rw [hnone hcr]; rfl
  have hconverted {r : Ref} (hr : w.Has r) (hcr : w.classOf a = w.classOf r) : v.Steady (isConverted r) (.ok false) :=
    hconverts hcr ▸ steady_isConverted h.sound hgrow hr fun _ => hcr ▸ h.alive
  refine .reading (steady_eitherOverloads (hequality ha rfl) (hequality hb hc)) ?_
  exact .reading (hconverted ha rfl) (.reading (hconverted hb hc) (hp.mono hv))

/-- Compares two values by whether they are the same. -/
def identical (x y : Ref) : Recall Bool := pure (decide (x = y))

/-- Two values that are the same or unequal are compared at once. -/
theorem follows_identical {depth : Nat} (ht : w.Grows t)
    (h : x = y ∨ (Unequal w x y ∧ t.Steady (Conversion.plainEqual x y) (.ok false))) :
    t.Follows (within (depth + 1) x y) (identical x y) := by
  unfold within compare identical
  rcases h with rfl | ⟨hxy, hanswer⟩
  · rw [if_pos rfl, decide_eq_true rfl]
    exact .pure t true
  · rw [if_neg hxy.ne, decide_eq_false hxy.ne]
    refine .getWorld fun v hv => ?_
    have hgrow := ht.trans hv.grows
    rw [hgrow.isPlain (has_of_isPlain hxy.left), hgrow.isPlain (has_of_isPlain hxy.right), hxy.left, hxy.right]
    exact .lift (hanswer.mono hv)

/-- Whether the fields of the first stand in the second. -/
noncomputable def sameFields (w : World) (a b : Ref) : Bool :=
  (fieldPairs (w.shownFields a) (w.shownFields b)).all fun p => p.any fun q => q.1 = q.2

theorem sameFields_eq_false_iff (h : w.AgreeBut a b place x y) (hne : x ≠ y) :
    sameFields w a b = false ↔ w.IsShown a place := by
  rw [sameFields, List.all_eq_false]
  constructor
  · rintro ⟨p, hp, hfalse⟩
    obtain ⟨⟨name, value⟩, hmem, rfl⟩ := List.mem_map.mp hp
    rcases h.lookup_of_mem hmem with ⟨-, hlookup⟩ | ⟨hshows, -⟩
    · simp [hlookup] at hfalse
    · exact ⟨name, hshows⟩
  · rintro ⟨name, hshows⟩
    have hmem := Pairs.mem_of_lookup (h.lookup_shownFields_left hshows)
    refine ⟨_, List.mem_map_of_mem hmem, ?_⟩
    simp [h.lookup_shownFields_right hshows, hne]

theorem asks_fieldPairs (h : w.AgreeBut a b place x y) :
    (Plan.all (fieldPairs (w.shownFields a) (w.shownFields b))).Asks fun x' y' => x' = y' ∨ (x' = x ∧ y' = y) := by
  refine .all fun p hp q hq => ?_
  obtain ⟨⟨name, value⟩, hmem, rfl⟩ := List.mem_map.mp hp
  obtain ⟨value', hlookup, rfl⟩ := Option.map_eq_some_iff.mp hq
  rcases h.lookup_of_mem hmem with ⟨-, he⟩ | ⟨-, hx, he⟩
  · exact .inl (Option.some.inj (he.symm.trans hlookup))
  · exact .inr ⟨hx, (Option.some.inj (he.symm.trans hlookup)).symm⟩

theorem follows_objects_of_agreeBut {depth : Nat} (h : w.AgreeBut a b place x y) (hxy : Unequal w x y) (ht : w.Grows t)
    (hn : 1 ≤ t.nesting) (hanswer : t.Steady (Conversion.plainEqual x y) (.ok false)) :
    t.Follows (objects (within (depth + 1)) a b)
      ((Plan.all (fieldPairs (w.shownFields a) (w.shownFields b))).run identical) := by
  have hfields {r : Ref} (hr : w.StoresOpenly r) : t.Steady (fields r) (.ok (w.shownFields r)) := by
    rw [← shownFields_grows hr ht]
    exact steady_fields_openly hn (hr.grows ht)
  have hmaps : t.Follows (fieldMaps (within (depth + 1)) (w.shownFields b) (w.shownFields a))
      ((Plan.all (fieldPairs (w.shownFields a) (w.shownFields b))).run identical) := by
    rw [fieldMaps_eq]
    refine Plan.follows_run (fun x' y' hpair => follows_identical ht ?_) (asks_fieldPairs h)
    rcases hpair with rfl | ⟨rfl, rfl⟩
    · exact .inl rfl
    · exact .inr ⟨hxy, hanswer⟩
  have hobjects := follows_fieldsOf ht h.left.has h.right.has h.sameClass (hfields h.left) (hfields h.right) hmaps
  rwa [if_neg (not_not.mpr h.length_shownFields)] at hobjects

/-- Deep equality of two objects that differ in one place asks whether the fields of the one stand in the other. -/
theorem settles_isEqual_of_agreeBut (h : w.AgreeBut a b place x y) (hf : HoldFields w a b) (hxy : Unequal w x y) :
    w.Settles (isEqual a b) (.ok (sameFields w a b)) := by
  obtain ⟨kind, hkind, hka, hkb⟩ := hf.shape
  have hab : a ≠ b := fun he => hxy.ne (Option.some.inj ((h.atLeft.symm.trans (he ▸ rfl)).trans h.atRight))
  let plan := Plan.all (fieldPairs (w.shownFields a) (w.shownFields b))
  refine settles_fresh (f := fun n => within n a b) (g := fun _ => (Outcome.visit plan).run identical (a, b)) ?_
    (.of_forall fun n => ?_)
  · filter_upwards [hxy.answer, Filter.eventually_ge_atTop 2] with n hanswer hn
    obtain ⟨depth, rfl⟩ := Nat.exists_eq_add_of_le' hn
    have hgrow := w.grows_limited (depth + 2)
    refine follows_compare_of_isObject hf hgrow hab h.sameClass h.left.has h.right.has ?_
    refine follows_visit hgrow h.left.has h.right.has hka hkb ?_
    refine follows_contents_of_isObject hgrow h.left.has hf.left hkind ?_
    exact follows_objects_of_agreeBut h hxy hgrow (Nat.le_add_left 1 _) hanswer
  · change Prod.fst <$> (Outcome.visit plan).run identical (a, b) [] = _
    rw [Outcome.run_visit_of_not_mem List.not_mem_nil]
    exact congrArg (Prod.fst <$> ·) (Plan.run_all_pure (fun x y => decide (x = y)) _ _)

/-- The fields of an object whose slots are read without running code are what it stores in the places they show, and values
of classes; they cover its storage exactly if they have what stands in slots that are not shown from elsewhere. Two such
objects that differ in one place are unequal exactly if the fields show that place. -/
theorem fields_cover_iff (ha : w.StoresOpenly a) :
    (∃ pairs, w.Settles (fields a) (.ok pairs) ∧
      (∀ name value, (name, value) ∈ pairs ↔
        (∃ place, w.ShowsAs a name place ∧ w.stored? a place = some value) ∨ w.Replaces a name value) ∧
      (w.CoversStorage a pairs ↔
        ∀ owner key value, w.slot? a owner key = some value → ¬ w.IsShown a (.slot owner key) → w.Doubles a value)) ∧
    ∀ b place x y, w.AgreeBut a b place x y → HoldFields w a b → Unequal w x y →
      ∃ e, w.Settles (isEqual a b) (.ok e) ∧ (e = false ↔ w.IsShown a place) := by
  refine ⟨⟨_, settles_fields_openly ha, fun name value => mem_shownFields_iff ha, coversStorage_iff ha⟩, ?_⟩
  intro b place x y h hf hxy
  exact ⟨_, settles_isEqual_of_agreeBut h hf hxy, sameFields_eq_false_iff h hxy.ne⟩

/-- A class with a private slot, and two instances that hold different numbers there. -/
def secretive : World :=
  { Session.initialWorld with
    classes := #[{ programClass "Secretive" [.declared 0, .native .object] [("_Secretive__key", .slot "_Secretive__key")]
      with slots := some ["__key"] }]
    cells := #[⟨.declared 0, .nothing, [((.declared 0, "_Secretive__key"), intRef 1)], none⟩,
      ⟨.declared 0, .nothing, [((.declared 0, "_Secretive__key"), intRef 2)], none⟩] }

/-- No field shows the slot, and the two are equal. -/
theorem not_fields_cover_secretive :
    secretive.stored? (.cell 0) (.slot (.declared 0) "_Secretive__key") = some (intRef 1) ∧
    secretive.stored? (.cell 1) (.slot (.declared 0) "_Secretive__key") = some (intRef 2) ∧
    answered (Conversion.plainEqual (intRef 1) (intRef 2)) secretive = some false ∧
    secretive.overloads (.declared 0) = .none ∧
    answered (fields (.cell 0)) secretive = some [] ∧
    answered (isEqual (.cell 0) (.cell 1)) secretive = some true := by
  decide +kernel

/-- A point of a class with a slot, whose child gives its instances attributes of their own as well. -/
def pointAt (x : Int) : Cell :=
  ⟨.declared 1, .nothing, [((.declared 0, "x"), intRef x)], some [("name", textRef "point")]⟩

def points : World :=
  { Session.initialWorld with
    classes := #[{ programClass "Point" [.declared 0, .native .object] [("x", .slot "x")] with slots := some ["x"] },
      programClass "Named" [.declared 1, .declared 0, .native .object] []]
    cells := #[pointAt 1, pointAt 2] }

theorem holdsEntries_points : points.HoldsEntries (.declared 1) := by
  intro a ha p hp
  have ha : a ∈ [.declared 1, .declared 0, .native .object] := ha
  simp only [List.mem_cons, List.not_mem_nil, or_false] at ha
  rcases ha with rfl | rfl | rfl
  · exact absurd hp List.not_mem_nil
  · cases List.mem_singleton.mp hp
    trivial
  · exact holdsEntry_native hp

theorem storesOpenly_points {r : Ref} (hr : r = .cell 0 ∨ r = .cell 1) : points.StoresOpenly r := by
  rcases hr with rfl | rfl <;>
    exact ⟨by decide, fun _ h => (by cases h), fun _ _ h => (by cases h), by decide, holdsEntries_points, by decide⟩

theorem agreeBut_points : points.AgreeBut (.cell 0) (.cell 1) (.slot (.declared 0) "x") (intRef 1) (intRef 2) where
  left := storesOpenly_points (.inl rfl)
  right := storesOpenly_points (.inr rfl)
  sameClass := rfl
  elsewhere other hother := by
    rcases other with ⟨owner, key⟩ | name
    · have hne : (owner, key) ≠ (ClassId.declared 0, "x") := fun he => hother (by cases he; rfl)
      have hnone (x : Int) : (pointAt x).slots.lookup (owner, key) = none := by
        rw [pointAt, List.lookup_cons, beq_eq_false_iff_ne.mpr hne]
        rfl
      exact (hnone 1).trans (hnone 2).symm
    · rfl
  atLeft := by decide
  atRight := by decide

theorem unequal_points : Unequal points (intRef 1) (intRef 2) where
  ne := by decide
  left := rfl
  right := rfl
  answer := by
    have hordinary (i : Int) : points.IsOrdinary (intRef i) (Atom.int i) := ⟨trivial, rfl, rfl⟩
    exact settles_plainEqual (hordinary 1) (hordinary 2)

theorem holdFields_points : HoldFields points (.cell 0) (.cell 1) :=
  ⟨rfl, rfl, Registry.sound_empty, by decide, by decide, .hash, .inl rfl, by decide, by decide⟩

theorem fields_cover_points :
    points.StoresOpenly (.cell 0) ∧ points.AgreeBut (.cell 0) (.cell 1) (.slot (.declared 0) "x") (intRef 1) (intRef 2) ∧
    HoldFields points (.cell 0) (.cell 1) ∧ Unequal points (intRef 1) (intRef 2) ∧
    (∃ pairs, points.Settles (fields (.cell 0)) (.ok pairs) ∧ ("x", intRef 1) ∈ pairs ∧ ("name", textRef "point") ∈ pairs) ∧
    points.Settles (isEqual (.cell 0) (.cell 1)) (.ok false) := by
  have hopen := storesOpenly_points (.inl rfl)
  obtain ⟨⟨pairs, hpairs, hmem, -⟩, hequal⟩ := fields_cover_iff hopen
  obtain ⟨e, he, hiff⟩ := hequal _ _ _ _ agreeBut_points holdFields_points unequal_points
  have hx : points.ShowsAs (.cell 0) "x" (.slot (.declared 0) "x") := by
    refine ⟨by decide, by decide, rfl⟩
  refine ⟨hopen, agreeBut_points, holdFields_points, unequal_points, ⟨pairs, hpairs, ?_, ?_⟩, ?_⟩
  · exact (hmem _ _).mpr (.inl ⟨_, hx, agreeBut_points.atLeft⟩)
  · exact (hmem _ _).mpr (.inl ⟨.attribute "name", rfl, by decide⟩)
  · rw [hiff.mpr ⟨_, hx⟩] at he
    exact he
end Introspect.Equality
