import Introspect.Handle
import Introspect.Proofs.Registry.Finding
/-!
Membership by name. Whether a name is among the ancestors of a subject is asked through the class that the name leads
to; which names the ancestors have is read off their types. The two agree unless the name misleads.
-/
namespace Introspect

open World Dispatch Registry

variable {w v u : World} {q : String} {id : Nat} {d : Descriptor} {c b : ClassId} {r other : Ref} {s : Session}

namespace Registry

/-! ## Where names lead -/

/-- Finding the name leads to the type of the class. -/
def FindsClass (w : World) (q : String) (c : ClassId) : Prop :=
  ∃ id u d, find? ask q w = .ok (some id) u ∧ u.registry.descriptor? id = some d ∧ d.cls = c

/-- The type registered last under the name is that of the class. -/
def Registers (w : World) (q : String) (c : ClassId) : Prop :=
  ∃ id d, w.registry.byName.lookup q = some id ∧ w.registry.descriptor? id = some d ∧ d.cls = c

/-- The name is registered for no type, and the class is bound under it. -/
structure Binds (w : World) (q : String) (c : ClassId) (v : World) : Prop where
  free : w.registry.byName.lookup q = none
  bound : resolve ask q w = .ok (some c) v

theorem exists_descriptor_ofClass (hs : w.registry.Sound) (h : ofClass c w = .ok id v) :
    ∃ d, v.registry.descriptor? id = some d ∧ d.cls = c := by
  obtain ⟨g, id', -, htype, hd⟩ := ofClass_eq hs c
  rw [htype] at h
  cases h
  exact ⟨_, hd, cls_descriptorOf hs⟩

theorem exists_descriptor_find? (hw : w.Regular) (h : find? ask q w = .ok (some id) u) :
    ∃ d, u.registry.descriptor? id = some d := by
  cases hl : w.registry.byName.lookup q with
  | some id' =>
      rw [find?_registered hl] at h
      cases h
      obtain ⟨d, hd, -⟩ := hw.names (q, id) (Pairs.mem_of_lookup hl)
      exact ⟨d, hd⟩
  | none =>
      obtain ⟨c, v, v', hbound, hrecord, htype⟩ := exists_bound hl h
      obtain ⟨d, hd, -⟩ := exists_descriptor_ofClass (regular_of_recordFound hw hbound hrecord).sound htype
      exact ⟨d, hd⟩

theorem findsClass_iff (hw : w.Regular) : FindsClass w q c ↔
    Registers w q c ∨ ∃ v u, Binds w q c v ∧ recordFound ask q v = .ok () u := by
  constructor
  · rintro ⟨id, u, d, hfind, hd, rfl⟩
    cases hl : w.registry.byName.lookup q with
    | some id' =>
        rw [find?_registered hl] at hfind
        cases hfind
        exact .inl ⟨id, d, hl, hd, rfl⟩
    | none =>
        obtain ⟨c, v, v', hbound, hrecord, htype⟩ := exists_bound hl hfind
        obtain ⟨d', hd', rfl⟩ := exists_descriptor_ofClass (regular_of_recordFound hw hbound hrecord).sound htype
        rw [hd] at hd'
        cases hd'
        exact .inr ⟨v, v', ⟨hl, hbound⟩, hrecord⟩
  · rintro (⟨id, d, hl, hd, hc⟩ | ⟨v, u, ⟨hfree, hbound⟩, hrecord⟩)
    · exact ⟨id, w, d, find?_registered hl, hd, hc⟩
    · have hu := (regular_of_recordFound hw hbound hrecord).sound
      obtain ⟨g, id, -, htype, hd⟩ := ofClass_eq hu c
      refine ⟨id, u.registered g, u.descriptorOf c, ?_, hd, cls_descriptorOf hu⟩
      rw [find?_bound hfree hbound hrecord]
      exact run_map_ok htype

/-! ## Types of an ancestry -/

/-- The types of an ancestry are those whose classes are in it. -/
theorem mem_ancestry_iff {ids : List Nat} {that : Nat} {d' : Descriptor} (hw : w.Regular)
    (hd : w.registry.descriptor? id = some d) (ha : w.isAlive d.cls = true)
    (hd' : w.registry.descriptor? that = some d') (h : ancestry id w = .ok ids v) :
    that ∈ ids ↔ d'.cls ∈ w.ancestry d.cls := by
  obtain ⟨g, ids', hg, hids, hdescribes⟩ := ancestry_eq hw.sound hd ha
  rw [hids] at h
  cases h
  have hthat : g.descriptor? that = some d' := hg.leads.grows.descriptor? hd'
  constructor
  · intro hmem
    obtain ⟨a, ha, hda⟩ := exists_of_forall₂ hdescribes hmem
    rw [Describes, hthat] at hda
    rw [Option.some.inj hda, cls_descriptorOf hw.sound]
    exact ha
  · intro hmem
    obtain ⟨a, ha', hda⟩ := exists_of_forall₂ hdescribes.flip hmem
    have hregular : (w.registered g).Regular := (Keeping.evolves_of_ok hids).passes.regular hw
    have halive : (w.registered g).isAlive d'.cls = true := hg.isAlive.trans (hw.isAlive_of_mem ha hmem)
    exact (hregular.descriptor_unique hthat hda (cls_descriptorOf hw.sound) halive) ▸ ha'

/-- A type fits a name exactly if the name leads to the type of a class in its ancestry. -/
theorem answered_fits_iff (hw : w.Regular) (hd : w.registry.descriptor? id = some d) (ha : w.isAlive d.cls = true)
    (hn : w.atom? other = some (.text q)) :
    answered (fits ask id other) w = some true ↔ ∃ c ∈ w.ancestry d.cls, FindsClass w q c := by
  have hfits : fits ask id other w = fitsName ask id q w := by
    rw [fits, run_get, hn]
    cases other with
    | cls c => cases hn
    | _ => rfl
  have hnone (h : ∀ id u, find? ask q w ≠ .ok (some id) u) : ¬ ∃ c ∈ w.ancestry d.cls, FindsClass w q c := by
    rintro ⟨c, -, id, u, d, hfind, -⟩
    exact h id u hfind
  rw [answered, hfits, fitsName]
  cases hfind : find? ask q w with
  | error fault u =>
      rw [run_bind_error hfind]
      exact iff_of_false (fun h => by cases h) (hnone fun id u h => by rw [hfind] at h; cases h)
  | ok found u =>
      rw [run_bind_ok hfind]
      cases found with
      | none => exact iff_of_false (fun h => by cases h) (hnone fun id u h => by rw [hfind] at h; cases h)
      | some that =>
          have hu := Keeping.evolves_of_ok hfind
          have hregular := hu.passes.regular hw
          have hdu := hu.keeps.descriptors id d hd
          have halive : u.isAlive d.cls = true := (hu.keeps.isAlive d.cls).trans ha
          obtain ⟨g, ids, -, hids, -⟩ := ancestry_eq hregular.sound hdu halive
          obtain ⟨d', hd'⟩ := exists_descriptor_find? hw hfind
          have hmem := mem_ancestry_iff hregular hdu halive hd' hids
          rw [hu.keeps.ancestry] at hmem
          dsimp only
          rw [run_bind_ok hids]
          refine (Option.some_inj.trans List.contains_iff_mem).trans (hmem.trans ⟨fun h => ?_, ?_⟩)
          · exact ⟨d'.cls, h, that, u, d', hfind, hd', rfl⟩
          · rintro ⟨c, hc, id', u', d'', h, hd'', rfl⟩
            rw [hfind] at h
            cases h
            rw [hd'] at hd''
            cases hd''
            exact hc

/-! ## Names of an ancestry -/

/-- A class of the ancestry of a subject has the name, or would get it when it is asked for. -/
def Named (w : World) (r : Ref) (q : String) : Prop := ∃ a ∈ w.ancestry (w.classOf r), (w.descriptorOf a).qname = q

/-- What a name leads to is at odds with the ancestors of a subject that have the name. -/
inductive Misleads (w : World) (r : Ref) (q : String) : Prop where
  /-- The type registered last under the name of an ancestor is that of another class. -/
  | shadowed (c : ClassId) (hnamed : Named w r q) (h : Registers w q c) (hc : c ∉ w.ancestry (w.classOf r))
  /-- The name of an ancestor is registered for no type, and no ancestor is bound under it. -/
  | unreachable (hnamed : Named w r q) (hfree : w.registry.byName.lookup q = none)
      (h : ∀ c v, Binds w q c v → c ∉ w.ancestry (w.classOf r))
  /-- An ancestor is bound under the name of an ancestor, which cannot be recorded. -/
  | unrecorded (c : ClassId) (v u : World) (fault : Fault) (hnamed : Named w r q) (h : Binds w q c v)
      (hc : c ∈ w.ancestry (w.classOf r)) (hrecord : recordFound ask q v = .error fault u)
  /-- An ancestor is bound under a name that is not its own, nor that of another one. -/
  | alias (c : ClassId) (v u : World) (hnamed : ¬ Named w r q) (h : Binds w q c v)
      (hc : c ∈ w.ancestry (w.classOf r)) (hrecord : recordFound ask q v = .ok () u)

theorem Registers.unique (h : Registers w q c) (h' : Registers w q b) : c = b := by
  obtain ⟨id, d, hl, hd, rfl⟩ := h
  obtain ⟨id', d', hl', hd', rfl⟩ := h'
  rw [hl] at hl'
  cases hl'
  rw [hd] at hd'
  cases hd'
  rfl

theorem Registers.not_binds (h : Registers w q c) : ¬ Binds w q b v := by
  obtain ⟨id, d, hl, -, -⟩ := h
  intro hb
  have hfree := hb.free
  rw [hl] at hfree
  cases hfree

theorem Binds.unique (h : Binds w q c v) (h' : Binds w q b u) : c = b ∧ v = u := by
  have hbound := h'.bound
  rw [h.bound] at hbound
  cases hbound
  exact ⟨rfl, rfl⟩

/-- A class of the ancestry that a name is registered for has that name. -/
theorem named_of_registers (hw : w.Regular) (ha : w.isAlive (w.classOf r) = true) (h : Registers w q c)
    (hc : c ∈ w.ancestry (w.classOf r)) : Named w r q := by
  obtain ⟨id, d, hl, hd, rfl⟩ := h
  obtain ⟨d', hd', hq⟩ := hw.names (q, id) (Pairs.mem_of_lookup hl)
  rw [hd] at hd'
  cases hd'
  refine ⟨d.cls, hc, ?_⟩
  rw [descriptorOf, hw.current id d hd (hw.isAlive_of_mem ha hc), Option.bind_some, hd]
  exact hq

theorem findsClass_iff_named_iff (hw : w.Regular) (ha : w.isAlive (w.classOf r) = true) :
    ((∃ c ∈ w.ancestry (w.classOf r), FindsClass w q c) ↔ Named w r q) ↔ ¬ Misleads w r q := by
  simp only [findsClass_iff hw]
  constructor
  · rintro hiff (⟨c, hnamed, h, hc⟩ | ⟨hnamed, hfree, h⟩ | ⟨c, v, u, fault, hnamed, h, hc, hrecord⟩ |
      ⟨c, v, u, hnamed, h, hc, hrecord⟩)
    · obtain ⟨b, hb, hr | ⟨v, u, hbinds, -⟩⟩ := hiff.mpr hnamed
      · exact hc (h.unique hr ▸ hb)
      · exact h.not_binds hbinds
    · obtain ⟨b, hb, ⟨id, d, hl, -, -⟩ | ⟨v, u, hbinds, -⟩⟩ := hiff.mpr hnamed
      · rw [hfree] at hl
        cases hl
      · exact h b v hbinds hb
    · obtain ⟨b, hb, hr | ⟨v', u', hbinds, hrecord'⟩⟩ := hiff.mpr hnamed
      · exact hr.not_binds h
      · obtain ⟨rfl, rfl⟩ := h.unique hbinds
        rw [hrecord] at hrecord'
        cases hrecord'
    · exact hnamed (hiff.mp ⟨c, hc, .inr ⟨v, u, h, hrecord⟩⟩)
  · intro hnot
    constructor
    · rintro ⟨c, hc, h | ⟨v, u, hbinds, hrecord⟩⟩
      · exact named_of_registers hw ha h hc
      · by_contra hnamed
        exact hnot (.alias c v u hnamed hbinds hc hrecord)
    · intro hnamed
      cases hl : w.registry.byName.lookup q with
      | some id =>
          obtain ⟨d, hd, -⟩ := hw.names (q, id) (Pairs.mem_of_lookup hl)
          have hr : Registers w q d.cls := ⟨id, d, hl, hd, rfl⟩
          by_cases hc : d.cls ∈ w.ancestry (w.classOf r)
          · exact ⟨d.cls, hc, .inl hr⟩
          · exact absurd (.shadowed d.cls hnamed hr hc) hnot
      | none =>
          by_cases hbound : ∃ c v, Binds w q c v ∧ c ∈ w.ancestry (w.classOf r)
          · obtain ⟨c, v, hbinds, hc⟩ := hbound
            cases hrecord : recordFound ask q v with
            | ok a u => exact ⟨c, hc, .inr ⟨v, u, hbinds, hrecord⟩⟩
            | error fault u => exact absurd (.unrecorded c v u fault hnamed hbinds hc hrecord) hnot
          · exact absurd (.unreachable hnamed hl fun c v hbinds hc => hbound ⟨c, v, hbinds, hc⟩) hnot

theorem mapM_qname_eq {g : Registry} {ids : List Nat} {cs : List ClassId} (h : List.Forall₂ (w.Describes g) ids cs) :
    ids.mapM qname (w.registered g) = .ok (cs.map fun c => (w.descriptorOf c).qname) (w.registered g) := by
  induction h with
  | nil => rfl
  | cons hd _ ih =>
      have hqname : qname _ (w.registered g) = .ok _ (w.registered g) := run_map_ok (descriptor_eq hd)
      rw [List.mapM_cons, run_bind_ok hqname, run_bind_ok ih]
      rfl

end Registry

namespace Session

theorem classOf_registered {g : Registry} : (s.world.registered g).classOf r = s.world.classOf r := by
  cases r with
  | entry c key => simp only [World.classOf, info_registered]
  | _ => rfl

/-- The type of a subject as data is that of its class. -/
theorem exists_type (hs : s.world.registry.Sound) (r : Ref) : ∃ g id, s.world.Enrolls g ∧
    (s.asked (s.world.classOf r)).world = s.world.registered g ∧ s.world.Describes g id (s.world.classOf r) ∧
      Handle.type ⟨.asData, r⟩ s.world = .ok id (s.world.registered g) := by
  obtain ⟨g, id, hg, htype, hd⟩ := ofClass_eq hs (s.world.classOf r)
  refine ⟨g, id, hg, ?_, hd, htype⟩
  rw [asked, World.after, htype]

/-- The names of a subject's ancestors are those that their types have or get. -/
theorem answered_ancestry (hs : s.world.registry.Sound) (ha : s.world.isAlive (s.world.classOf r) = true) :
    answered (Handle.ancestry ⟨.asData, r⟩) s.world =
      some ((s.world.ancestry (s.world.classOf r)).map fun c => (s.world.descriptorOf c).qname) := by
  obtain ⟨g, id, hg, -, hd, htype⟩ := exists_type hs r
  have hcls : (s.world.descriptorOf (s.world.classOf r)).cls = s.world.classOf r := cls_descriptorOf hs
  have hdescriptor : (s.world.registered g).registry.descriptor? id =
    some (s.world.descriptorOf (s.world.classOf r)) := hd
  have halive : (s.world.registered g).isAlive (s.world.descriptorOf (s.world.classOf r)).cls = true := by
    rw [hg.isAlive, hcls]
    exact ha
  obtain ⟨g', ids, -, hids, hdescribes⟩ := ancestry_eq hg.sound hdescriptor halive
  rw [hcls, ancestry_registered] at hdescribes
  rw [answered, Handle.ancestry, run_bind_ok htype, run_bind_ok hids, mapM_qname_eq hdescribes]
  simp only [descriptorOf_grows hs hg.leads.grows]

/-- A subject is said to be of a name exactly if one of its ancestors has that name, unless the name misleads once the
subject's type was asked for. -/
theorem isA_iff_mem_ancestry (hs : s.Reachable) (ha : s.world.isAlive (s.world.classOf r) = true)
    (hn : s.world.atom? other = some (.text q)) :
    ∃ names, answered (Handle.ancestry ⟨.asData, r⟩) s.world = some names ∧
      ((answered (Handle.isA ⟨.asData, r⟩ other) s.world = some true ↔ q ∈ names) ↔
        ¬ Misleads (s.asked (s.world.classOf r)).world r q) := by
  refine ⟨_, answered_ancestry hs.regular.sound ha, ?_⟩
  have hregular := (hs.asked ha).regular
  obtain ⟨g, id, hg, hasked, hd, htype⟩ := exists_type hs.regular.sound r
  rw [hasked] at hregular ⊢
  have hcls : (s.world.descriptorOf (s.world.classOf r)).cls = s.world.classOf r := cls_descriptorOf hs.regular.sound
  have halive : (s.world.registered g).isAlive (s.world.classOf r) = true := hg.isAlive.trans ha
  have hfits : answered (fits ask id other) _ = some true ↔ _ :=
    answered_fits_iff hregular hd (by rw [hcls]; exact halive) hn
  rw [hcls] at hfits
  have hnamed : q ∈ (s.world.ancestry (s.world.classOf r)).map (fun c => (s.world.descriptorOf c).qname) ↔
      Named (s.world.registered g) r q := by
    simp only [List.mem_map, Named, classOf_registered, ancestry_registered,
      descriptorOf_grows hs.regular.sound hg.leads.grows]
  rw [answered, Handle.isA, run_bind_ok htype]
  have hiff := findsClass_iff_named_iff (r := r) (q := q) hregular (by rw [classOf_registered]; exact halive)
  rw [classOf_registered] at hiff
  exact (iff_congr hfits hnamed).trans hiff

/-- An object of a class below one that is bound in its module. -/
def derived : Session :=
  following
    [.cls (.declare ⟨"L", "L", "L", some "app", [], none, [], false⟩),
     .cls (.declare ⟨"D", "D", "D", some "app", ["L"], none, [], false⟩),
     .value (.assign "x" (.object "D" none []))]
    initial

theorem not_misleads_derived : derived.world.classOf (.cell 0) = .declared 1 ∧
    answered (Handle.ancestry ⟨.asData, .cell 0⟩) derived.world = some ["app.D", "app.L", "object"] ∧
    answered (Handle.isA ⟨.asData, .cell 0⟩ (textRef "app.L")) derived.world = some true ∧
    ¬ Misleads (derived.asked (.declared 1)).world (.cell 0) "app.L" := by
  have hreachable : derived.Reachable := .following .refl _
  have hclass : derived.world.classOf (.cell 0) = .declared 1 := by decide +kernel
  have hnames : answered (Handle.ancestry ⟨.asData, .cell 0⟩) derived.world =
    some ["app.D", "app.L", "object"] := by decide +kernel
  have hisA : answered (Handle.isA ⟨.asData, .cell 0⟩ (textRef "app.L")) derived.world = some true := by decide +kernel
  have hname : derived.world.atom? (textRef "app.L") = some (.text "app.L") := rfl
  obtain ⟨names, hsome, hiff⟩ := isA_iff_mem_ancestry (r := .cell 0) hreachable (by rw [hclass]; decide +kernel) hname
  rw [hnames] at hsome
  cases hsome
  rw [hclass] at hiff
  exact ⟨hclass, hnames, hisA, hiff.mp (iff_of_true hisA (by decide))⟩

/-- An object of a class below one that is bound nowhere. -/
def derivedLocally : Session :=
  following
    [.cls (.declare ⟨"L", "L", "L", some "app", [], none, [], true⟩),
     .cls (.declare ⟨"D", "D", "D", some "app", ["L"], none, [], false⟩),
     .value (.assign "x" (.object "D" none []))]
    initial

theorem isA_derivedLocally : derivedLocally.Reachable ∧
    answered (Handle.ancestry ⟨.asData, .cell 0⟩) derivedLocally.world = some ["app.D", "app.L", "object"] ∧
    answered (Handle.isA ⟨.asData, .cell 0⟩ (textRef "app.L")) derivedLocally.world = some false := by
  refine ⟨.following .refl _, ?_⟩
  decide +kernel

end Session

end Introspect
