import Introspect.Proofs.Reflect.Lookup
import Introspect.Proofs.Session.Reachable
/-!
Operations listed, and operations looked up by name. The list is made from the classes of the ancestry in turn, where a
name that is there already stays as it is; the lookup stops at the first class that declares an operation of the name.
-/
namespace Introspect

namespace World

variable {w : World} {c : ClassId} {name : String} {op : Operation} {found more : List Operation}
  {classes : List ClassId}

abbrev ofName (name : String) (op : Operation) : Bool := op.name = name

/-! ## A table of the first of each name -/

theorem find?_collect :
    (collect found more).find? (ofName name) = (found.find? (ofName name)).or (more.find? (ofName name)) := by
  induction more generalizing found with
  | nil => exact Option.or_none.symm
  | cons op rest ih =>
      rw [collect, List.foldl_cons, ← collect, ih]
      by_cases hop : op.name = name
      · by_cases hany : found.any (·.name = op.name) = true
        · have hsome : (found.find? (ofName name)).isSome = true := by
            simpa only [List.find?_isSome, List.any_eq_true, ofName, hop] using hany
          rw [if_pos hany, Option.or_of_isSome hsome, Option.or_of_isSome hsome]
        · rw [if_neg hany, List.find?_append, List.find?_singleton, List.find?_cons_of_pos (by simp [ofName, hop]),
            if_pos (by simp [ofName, hop]), Option.or_assoc]
          rfl
      · rw [List.find?_cons_of_neg (by simp [ofName, hop])]
        split
        · rfl
        · rw [List.find?_append, List.find?_singleton, if_neg (by simp [ofName, hop]), Option.or_none]

theorem nodup_collect (hd : (found.map (·.name)).Nodup) : ((collect found more).map (·.name)).Nodup := by
  induction more generalizing found with
  | nil => exact hd
  | cons op rest ih =>
      rw [collect, List.foldl_cons, ← collect]
      refine ih ?_
      split
      · exact hd
      · rename_i hany
        rw [List.map_append, List.nodup_append]
        refine ⟨hd, List.nodup_singleton _, ?_⟩
        rintro _ hmem _ hlast rfl
        obtain ⟨op', hop', hname⟩ := List.mem_map.mp hmem
        refine hany (List.any_eq_true.mpr ⟨op', hop', decide_eq_true (hname.trans ?_)⟩)
        exact List.mem_singleton.mp hlast

/-- What the classes of a list declare, of two operations with one name the first. -/
def firstDeclared (w : World) (classes : List ClassId) : List Operation :=
  classes.foldl (fun found c => collect found (w.declared c)) []

theorem find?_foldl_collect :
    (classes.foldl (fun found c => collect found (w.declared c)) found).find? (ofName name) =
      (found.find? (ofName name)).or (w.operationAmong? name classes) := by
  induction classes generalizing found with
  | nil => exact Option.or_none.symm
  | cons c rest ih => rw [List.foldl_cons, ih, find?_collect, Option.or_assoc]; rfl

theorem find?_firstDeclared :
    (w.firstDeclared classes).find? (ofName name) = w.operationAmong? name classes := find?_foldl_collect

theorem nodup_foldl_collect (hd : (found.map (·.name)).Nodup) :
    ((classes.foldl (fun found c => collect found (w.declared c)) found).map (·.name)).Nodup := by
  induction classes generalizing found with
  | nil => exact hd
  | cons c rest ih => exact ih (nodup_collect hd)

theorem nodup_firstDeclared : ((w.firstDeclared classes).map (·.name)).Nodup := nodup_foldl_collect List.nodup_nil

theorem mem_iff_find?_of_nodup (hd : (found.map (·.name)).Nodup) :
    op ∈ found ∧ op.name = name ↔ found.find? (ofName name) = some op := by
  constructor
  · rintro ⟨hmem, rfl⟩
    obtain ⟨op', hop'⟩ := Option.isSome_iff_exists.mp
      (List.find?_isSome.mpr ⟨op, hmem, decide_eq_true rfl⟩ : (found.find? (ofName op.name)).isSome = true)
    have hname : op'.name = op.name := of_decide_eq_true (List.find?_some (p := ofName op.name) hop')
    rw [hop', List.inj_on_of_nodup_map hd (List.mem_of_find?_eq_some hop') hmem hname]
  · exact fun h => ⟨List.mem_of_find?_eq_some h, of_decide_eq_true (List.find?_some (p := ofName name) h)⟩

/-! ## The list of a class -/

/-- The classes that a list of operations is made from. -/
def listed (w : World) (c : ClassId) (withRoot justMine : Bool) : List ClassId :=
  (if justMine then [c] else w.ancestry c).filter fun c => withRoot || c ≠ .native .object

variable {withRoot justMine : Bool}

theorem operations_perm :
    (w.operations c withRoot justMine).Perm (w.firstDeclared (w.listed c withRoot justMine)) :=
  List.mergeSort_perm _ _

/-- A name is in the list with the operation that the first of its classes declares. -/
theorem mem_operations_iff :
    op ∈ w.operations c withRoot justMine ∧ op.name = name ↔
      w.operationAmong? name (w.listed c withRoot justMine) = some op := by
  rw [operations_perm.mem_iff, mem_iff_find?_of_nodup nodup_firstDeclared, find?_firstDeclared]

theorem operations_sorted : (w.operations c withRoot justMine).Pairwise (·.name < ·.name) := by
  have hle : (w.operations c withRoot justMine).Pairwise fun a b => decide (a.name ≤ b.name) = true := by
    refine List.pairwise_mergeSort (fun a b c hab hbc => ?_) (fun a b => ?_) _
    · exact decide_eq_true (String.le_trans (of_decide_eq_true hab) (of_decide_eq_true hbc))
    · simpa using String.le_total a.name b.name
  have hnames : ((w.operations c withRoot justMine).map (·.name)).Nodup :=
    (operations_perm.map _).nodup_iff.mpr nodup_firstDeclared
  have hne : (w.operations c withRoot justMine).Pairwise fun a b => a.name ≠ b.name := List.pairwise_map.mp hnames
  refine (hle.and hne).imp fun ⟨hle, hne⟩ => ?_
  exact Std.lt_of_le_of_ne (of_decide_eq_true hle) hne

/-- A class declares an operation of the name. -/
def Declares (w : World) (c : ClassId) (name : String) : Prop :=
  ∃ e, (name, e) ∈ (w.info c).entries ∧ w.isOperation e = true

theorem declares_iff : w.Declares c name ↔ ∃ op ∈ w.declared c, op.name = name := by
  constructor
  · rintro ⟨e, he, ho⟩
    exact ⟨_, List.mem_map_of_mem (List.mem_filter.mpr ⟨he, ho⟩), rfl⟩
  · rintro ⟨op, hop, rfl⟩
    obtain ⟨⟨key, e⟩, he, rfl⟩ := List.mem_map.mp hop
    obtain ⟨he, ho⟩ := List.mem_filter.mp he
    exact ⟨e, he, ho⟩

theorem isSome_declared? : (w.declared? c name).isSome = true ↔ w.Declares c name := by
  simp only [declared?, List.find?_isSome, declares_iff, decide_eq_true_eq]

theorem isSome_operationAmong? :
    (w.operationAmong? name classes).isSome = true ↔ ∃ a ∈ classes, w.Declares a name := by
  induction classes with
  | nil => simp [operationAmong?]
  | cons a rest ih =>
      rw [operationAmong?, Option.isSome_or, Bool.or_eq_true, isSome_declared?, ih, List.exists_mem_cons_iff]

theorem mem_names_operations :
    name ∈ (w.operations c withRoot justMine).map (·.name) ↔
      ∃ a ∈ w.listed c withRoot justMine, w.Declares a name := by
  rw [← isSome_operationAmong?, Option.isSome_iff_exists, List.mem_map]
  exact exists_congr fun op => mem_operations_iff

/-! ## The lists that a type answers -/

variable {g : Registry} {type : Act Nat} {d : Descriptor}

@[simp] theorem operations_registered :
    (w.registered g).operations c withRoot justMine = w.operations c withRoot justMine := by
  simp only [operations, operationsAmong, ancestry_registered, declared_registered]

/-- The root has no operations of its own unless they are asked for. -/
theorem operations_root : w.operations (.native .object) false true = [] := List.mergeSort_nil

theorem answered_operations (ht : w.Identifies type d) (ha : w.isAlive d.cls = true) :
    answered (do Registry.operations (← type) withRoot justMine) w =
      some (w.operations d.cls withRoot justMine) := by
  obtain ⟨g, id, hg, htype, hd⟩ := ht
  rw [← hg.isAlive] at ha
  have hlive := liveClass_eq hd ha
  have hclass : Registry.class? id (w.registered g) = .ok (some d.cls) (w.registered g) := by
    rw [Registry.class?, run_bind_ok (descriptor_eq hd), run_get, if_pos ha]
    rfl
  have hroot : Registry.isRoot id (w.registered g) = .ok (some d.cls = some (.native .object)) (w.registered g) := by
    rw [Registry.isRoot, run_bind_ok hclass]
    rfl
  rw [answered, run_bind_ok htype, Registry.operations, run_bind_ok hroot]
  by_cases hskip : (justMine && !withRoot && decide (some d.cls = some (.native .object))) = true
  · obtain ⟨⟨rfl, rfl⟩, hc⟩ : (justMine = true ∧ withRoot = false) ∧ d.cls = .native .object := by simpa using hskip
    rw [if_pos hskip, hc, operations_root]
    rfl
  · rw [if_neg hskip, run_bind_ok hlive]
    cases justMine with
    | true => exact congrArg some operations_registered
    | false =>
        -- The ancestry is asked for, which registers its classes.
        obtain ⟨g', ids, hg', hids, -⟩ := ancestry_eq hg.sound hd ha
        rw [if_pos (by rfl), run_bind_ok hids]
        exact congrArg some operations_registered

theorem listed_withRoot : w.listed c true false = w.ancestry c := by
  simp [listed]

theorem mem_listed_ancestry {a : ClassId} : a ∈ w.listed c false false ↔ a ∈ w.ancestry c ∧ a ≠ .native .object := by
  simp [listed]

theorem listed_justMine (hc : c ≠ .native .object) : w.listed c false true = [c] := by
  simp [listed, hc]

/-- What a class declares itself is in its list, and in the list of what it has. -/
theorem justMine_subset (hl : w.LeadsAncestry c) (hc : c ≠ .native .object) :
    w.operations c false true ⊆ w.operations c false false := by
  intro op hop
  obtain ⟨later, hlater⟩ := hl
  have hmine : w.operationAmong? op.name [c] = some op := by
    rw [← listed_justMine hc]
    exact mem_operations_iff.mp ⟨hop, rfl⟩
  rw [operationAmong?, operationAmong?, Option.or_none] at hmine
  have hall : w.operationAmong? op.name (w.listed c false false) = some op := by
    simp only [listed, hlater, Bool.false_eq_true, if_false, Bool.false_or, List.filter_cons, decide_eq_true hc, if_true,
      operationAmong?, hmine, Option.some_or]
  exact (mem_operations_iff.mpr hall).1

/-- The list of all operations holds, in the order of their names, what the lookup finds under each name; without the
root it has the names that another class of the ancestry declares, and for a class alone those that it declares itself. -/
theorem operations_agree (ht : w.Identifies type d) (ha : w.isAlive d.cls = true) (hl : w.LeadsAncestry d.cls) :
    ∃ all shown mine : List Operation,
      answered (do Registry.operations (← type) true false) w = some all ∧
      answered (do Registry.operations (← type) false false) w = some shown ∧
      answered (do Registry.operations (← type) false true) w = some mine ∧
      (∀ list ∈ [all, shown, mine], list.Pairwise (·.name < ·.name)) ∧
      (∀ name op, op ∈ all ∧ op.name = name ↔
        answered (do Registry.operation? (← type) name) w = some (some op)) ∧
      (∀ name, name ∈ shown.map (·.name) ↔ ∃ a ∈ w.ancestry d.cls, a ≠ .native .object ∧ w.Declares a name) ∧
      (d.cls ≠ .native .object → (∀ name, name ∈ mine.map (·.name) ↔ w.Declares d.cls name) ∧ mine ⊆ shown) := by
  refine ⟨_, _, _, answered_operations ht ha, answered_operations ht ha, answered_operations ht ha, ?_, ?_, ?_, ?_⟩
  · simp only [List.forall_mem_cons, List.not_mem_nil, false_imp_iff, implies_true, and_true]
    exact ⟨operations_sorted, operations_sorted, operations_sorted⟩
  · intro name op
    rw [mem_operations_iff, listed_withRoot, answered_operation? ht ha, Option.some_inj]
    rfl
  · intro name
    simp only [mem_names_operations, mem_listed_ancestry, and_assoc]
  · intro hc
    refine ⟨fun name => ?_, justMine_subset hl hc⟩
    simp only [mem_names_operations, listed_justMine hc, List.mem_singleton, exists_eq_left]

end World

/-! ## In sessions -/

namespace Session

open World

variable {s : Session} {d : Descriptor} {id : Nat}

/-- Whatever has happened to a session, a type that is held lists what its class declares among what its class has. -/
theorem Reachable.justMine_subset_held (hs : s.Reachable) (hd : s.world.registry.descriptor? id = some d)
    (ha : s.world.isAlive d.cls = true) (hc : ∀ i, d.cls = .declared i → i < s.world.classes.size)
    (hroot : d.cls ≠ .native .object) :
    ∃ mine shown : List Operation,
      answered (Registry.operations id false true) s.world = some mine ∧
      answered (Registry.operations id false false) s.world = some shown ∧ mine ⊆ shown := by
  have ht := identifies_descriptor hs.regular.sound hd
  exact ⟨_, _, answered_operations ht ha, answered_operations ht ha, justMine_subset (hs.leadsAncestry hc) hroot⟩

def declareClass (name : String) (bases : List String) (entries : List (String × EntryTerm)) : Command :=
  .cls (.declare ⟨name, name, name, some "app", bases, none, entries, false⟩)

/-- A class with a method, and one below it with a property of the name. -/
def hiddenMethod : Session :=
  following
    [declareClass "Base" [] [("size", .function .argCount .receiver false false false none)],
     declareClass "Derived" ["Base"] [("size", .property .argCount)]]
    initial

end Session

namespace World

open Session

/-- A method behind a property is in the list, and not in that of the class alone. -/
theorem operations_agree_property :
    hiddenMethod.Reachable ∧ hiddenMethod.world.isAlive (.declared 1) = true ∧
    hiddenMethod.world.LeadsAncestry (.declared 1) ∧
    ∃ shown mine : List Operation,
      answered (do Registry.operations (← Dispatch.viewType Dispatch.ask .asType (.cls (.declared 1))) false false)
        hiddenMethod.world = some shown ∧
      answered (do Registry.operations (← Dispatch.viewType Dispatch.ask .asType (.cls (.declared 1))) false true)
        hiddenMethod.world = some mine ∧
      "size" ∈ shown.map (·.name) ∧ "size" ∉ mine.map (·.name) := by
  have hreachable : hiddenMethod.Reachable := .following .refl _
  have hfacts : hiddenMethod.world.isAlive (.declared 1) = true ∧ hiddenMethod.world.classes.size = 2 ∧
      ClassId.declared 0 ∈ hiddenMethod.world.ancestry (.declared 1) ∧
      (∃ e ∈ (hiddenMethod.world.info (.declared 0)).entries, e.1 = "size" ∧ hiddenMethod.world.isOperation e.2 = true) ∧
      ∀ e ∈ (hiddenMethod.world.info (.declared 1)).entries, e.1 = "size" → hiddenMethod.world.isOperation e.2 = false := by
    decide +kernel
  obtain ⟨ha, hsize, hbase, ⟨e, he, hname, hoperation⟩, hhidden⟩ := hfacts
  have hl : hiddenMethod.world.LeadsAncestry (.declared 1) := hreachable.leadsAncestry fun i hi => by
    cases hi
    rw [hsize]
    decide
  obtain ⟨all, shown, mine, -, hshown, hmine, -, -, hnames, hown⟩ :=
    operations_agree (identifies_asType hreachable.regular.sound Dispatch.ask (.declared 1)) ha hl
  refine ⟨hreachable, ha, hl, shown, mine, hshown, hmine, (hnames "size").mpr ?_, fun hlisted => ?_⟩
  · exact ⟨.declared 0, hbase, by decide, e.2, hname ▸ he, hoperation⟩
  · obtain ⟨e', he', ho'⟩ := ((hown (by decide)).1 "size").mp hlisted
    rw [hhidden _ he' rfl] at ho'
    cases ho'

end World

end Introspect
