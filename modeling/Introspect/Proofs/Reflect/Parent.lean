import Introspect.Proofs.Reflect.Lookup
import Introspect.Reflect.Parent
/-!
The search for the next implementation. It starts behind the first class of the ancestry that declares
the running code, under the name that this class gives to it; what was found before does not count.
-/
namespace Introspect.World

/-- The ancestry of a class, with the names that the classes are registered under. -/
def lineage (w : World) (c : ClassId) : Ancestry :=
  (w.ancestry c).map fun a => (a, (w.descriptorOf a).name)

/-- The code that tells an operation from others while it runs. -/
def runningCode? (w : World) (op : Operation) : Option Routine := w.entryCode? op.name op.entry

/-- The operation that a call of the next implementation leads to. -/
def next? (w : World) (c : ClassId) (code : Routine) : Option Operation :=
  (w.caller? code (w.lineage c)).bind fun found => w.parent? found.1 found.2

variable {w : World} {c a : ClassId} {g : Registry} {code : Routine} {name registered : String}
  {ancestry before rest : Ancestry} {op op' : Operation}

theorem owner_of_declared (h : op ∈ w.declared c) : op.owner = c := by
  simp only [declared, List.mem_map] at h
  obtain ⟨p, -, rfl⟩ := h
  rfl

theorem mem_of_declared? (h : w.declared? c name = some op) : op ∈ w.declared c :=
  List.mem_of_find?_eq_some h

theorem name_of_declared? (h : w.declared? c name = some op) : op.name = name := by
  simpa using List.find?_some h

/-! ## The caller -/

theorem caller?_append (h : ∀ p ∈ before, ∀ op ∈ w.declared p.1, w.runningCode? op ≠ some code) :
    w.caller? code (before ++ rest) = w.caller? code rest := by
  induction before with
  | nil => rfl
  | cons p before ih =>
      obtain ⟨hp, hbefore⟩ := List.forall_mem_cons.mp h
      have hnone : ((w.declared p.1).find? fun op => w.entryCode? op.name op.entry = some code) = none := by
        simpa [runningCode?] using hp
      rw [List.cons_append, caller?, hnone]
      exact ih hbefore

theorem caller?_cons (h : ((w.declared a).find? fun op => w.runningCode? op = some code) = some op) :
    w.caller? code ((a, registered) :: rest) = some (PrivateName.plain registered op.name, rest) := by
  have hfind : ((w.declared a).find? fun op => w.entryCode? op.name op.entry = some code) = some op := h
  rw [caller?, hfind]

/-- The caller is the first operation with the code. -/
theorem exists_of_caller? (h : w.caller? code ancestry = some (name, rest)) :
    ∃ before a registered op, ancestry = before ++ (a, registered) :: rest ∧ op ∈ w.declared a ∧
      w.runningCode? op = some code ∧ name = PrivateName.plain registered op.name := by
  induction ancestry with
  | nil => cases h
  | cons p later ih =>
      obtain ⟨a, registered⟩ := p
      rw [caller?] at h
      cases hfind : (w.declared a).find? (fun op => w.entryCode? op.name op.entry = some code) with
      | some op =>
          rw [hfind] at h
          cases h
          refine ⟨[], a, registered, op, rfl, List.mem_of_find?_eq_some hfind, ?_, rfl⟩
          simpa [runningCode?] using List.find?_some hfind
      | none =>
          rw [hfind] at h
          obtain ⟨before, a', registered', op, rfl, hop⟩ := ih h
          exact ⟨(a, registered) :: before, a', registered', op, rfl, hop⟩

/-! ## The next implementation -/

theorem parent?_eq_head? :
    w.parent? name ancestry =
      (ancestry.filterMap fun p => w.declared? p.1 (PrivateName.key p.2 name)).head? := by
  induction ancestry with
  | nil => rfl
  | cons p later ih =>
      rw [parent?, ih, List.filterMap_cons]
      cases w.declared? p.1 (PrivateName.key p.2 name) <;> rfl

theorem exists_of_parent? (h : w.parent? name ancestry = some op) :
    ∃ p ∈ ancestry, w.declared? p.1 (PrivateName.key p.2 name) = some op := by
  rw [parent?_eq_head?] at h
  exact List.mem_filterMap.mp (List.mem_of_mem_head? h)

theorem exists_of_next? (h : w.next? c code = some op) :
    ∃ before a registered rest op', w.lineage c = before ++ (a, registered) :: rest ∧
      op' ∈ w.declared a ∧ w.runningCode? op' = some code ∧
      w.parent? (PrivateName.plain registered op'.name) rest = some op := by
  obtain ⟨⟨name, rest⟩, hcaller, hparent⟩ := Option.bind_eq_some_iff.mp h
  obtain ⟨before, a, registered, op', hsplit, hop', hcode, rfl⟩ := exists_of_caller? hcaller
  exact ⟨before, a, registered, rest, op', hsplit, hop', hcode, hparent⟩

theorem mem_ancestry_of_lineage {p : ClassId × String} (h : p ∈ w.lineage c) : p.1 ∈ w.ancestry c := by
  obtain ⟨a, ha, rfl⟩ := List.mem_map.mp h
  exact ha

theorem owner_of_next? (h : w.next? c code = some op) : op.owner ∈ w.ancestry c := by
  obtain ⟨before, a, registered, rest, op', hsplit, -, -, hparent⟩ := exists_of_next? h
  obtain ⟨p, hp, hdeclared⟩ := exists_of_parent? hparent
  rw [owner_of_declared (mem_of_declared? hdeclared)]
  apply mem_ancestry_of_lineage
  rw [hsplit]
  exact List.mem_append_right _ (List.mem_cons_of_mem _ hp)

/-! ## Positions -/

/-- Where a class stands in the order of dispatch. -/
def position (w : World) (c a : ClassId) : Nat := (w.ancestry c).idxOf a

theorem position_lt (h : a ∈ w.ancestry c) : w.position c a < (w.ancestry c).length :=
  List.idxOf_lt_length_of_mem h

theorem ancestry_eq_of_lineage (h : w.lineage c = before ++ rest) :
    w.ancestry c = before.map (·.1) ++ rest.map (·.1) := by
  have hmap := congrArg (List.map (·.1)) h
  rw [List.map_append] at hmap
  rw [← hmap, lineage, List.map_map]
  exact (List.map_id _).symm

/-- What stands behind a part of the ancestry has a later position. -/
theorem le_position (hn : (w.ancestry c).Nodup) (h : w.lineage c = before ++ rest) {p : ClassId × String}
    (hp : p ∈ rest) : before.length ≤ w.position c p.1 := by
  have hanc := ancestry_eq_of_lineage h
  have hmem : p.1 ∈ rest.map (·.1) := List.mem_map_of_mem hp
  rw [hanc] at hn
  have hnot : p.1 ∉ before.map (·.1) := fun hb => List.disjoint_of_nodup_append hn hb hmem
  rw [position, hanc, List.idxOf_append_of_notMem hnot, List.length_map]
  exact Nat.le_add_right _ _

theorem position_eq (hn : (w.ancestry c).Nodup) (h : w.lineage c = before ++ (a, registered) :: rest) :
    w.position c a = before.length := by
  have hanc := ancestry_eq_of_lineage h
  rw [hanc] at hn
  have hnot : a ∉ before.map (·.1) := fun hb =>
    List.disjoint_of_nodup_append hn hb List.mem_cons_self
  rw [position, hanc, List.idxOf_append_of_notMem hnot, List.map_cons, List.idxOf_cons_self,
    List.length_map, Nat.add_zero]

/-- The next implementation stands no later than any other of the name behind the caller. -/
theorem position_parent?_le (hn : (w.ancestry c).Nodup) (h : w.lineage c = before ++ rest)
    (hparent : w.parent? name rest = some op) {p : ClassId × String} (hp : p ∈ rest)
    (hdeclared : (w.declared? p.1 (PrivateName.key p.2 name)).isSome = true) :
    w.position c op.owner ≤ w.position c p.1 := by
  induction rest generalizing before with
  | nil => cases hp
  | cons q later ih =>
      have hlater : w.lineage c = (before ++ [q]) ++ later := by simpa using h
      rw [parent?] at hparent
      cases hq : w.declared? q.1 (PrivateName.key q.2 name) with
      | some op' =>
          rw [hq, Option.some_or] at hparent
          cases hparent
          rw [owner_of_declared (mem_of_declared? hq), position_eq hn h]
          exact le_position hn h hp
      | none =>
          rw [hq, Option.none_or] at hparent
          rcases List.mem_cons.mp hp with rfl | hp
          · rw [hq] at hdeclared
            cases hdeclared
          · exact ih hlater hparent hp

/-! ## Chains of calls -/

/-- Operations that dispatch leads to, and those that follow them. -/
inductive Reached (w : World) (c : ClassId) : Operation → Prop where
  | dispatch {name : String} {op : Operation} : w.dispatched? c name = some op → Reached w c op
  | next {op op' : Operation} {code : Routine} : Reached w c op → w.runningCode? op = some code →
      w.next? c code = some op' → Reached w c op'

/-- The operation that an operation leads to when it calls the next implementation. -/
def Hop (w : World) (c : ClassId) (op op' : Operation) : Prop :=
  ∃ code, w.runningCode? op = some code ∧ w.next? c code = some op'

/-- Behind the first class that declares the code of an operation, but not behind the operation itself,
a class declares an operation of the same name. -/
def Repeats (w : World) (c : ClassId) (op : Operation) : Prop :=
  ∃ code name rest, w.runningCode? op = some code ∧ w.caller? code (w.lineage c) = some (name, rest) ∧
    ∃ p ∈ rest, (w.declared? p.1 (PrivateName.key p.2 name)).isSome = true ∧
      w.position c p.1 ≤ w.position c op.owner

theorem Reached.owner (h : w.Reached c op) : op.owner ∈ w.ancestry c := by
  cases h with
  | dispatch h =>
      obtain ⟨found, hfound, hop⟩ := Option.bind_eq_some_iff.mp h
      simp only [operationOf?, Option.ite_none_right_eq_some, Option.some_inj] at hop
      rw [← hop.2]
      exact (mem_of_entryAmong? hfound).1
  | next _ _ h => exact owner_of_next? h

theorem mem_declared_of_operationOf? {e : Entry} (he : (w.info a).entryOf? name = some e)
    (h : w.operationOf? name a e = some op) : op ∈ w.declared a ∧ op.owner = a := by
  simp only [operationOf?, Option.ite_none_right_eq_some, Option.some_inj] at h
  obtain ⟨ho, rfl⟩ := h
  exact ⟨List.mem_map.mpr ⟨(name, e), List.mem_filter.mpr ⟨Pairs.mem_of_lookup he, ho⟩, rfl⟩, rfl⟩

theorem Reached.declared (h : w.Reached c op) : op ∈ w.declared op.owner := by
  cases h with
  | dispatch h =>
      obtain ⟨found, hfound, hop⟩ := Option.bind_eq_some_iff.mp h
      obtain ⟨hmem, howner⟩ := mem_declared_of_operationOf? (mem_of_entryAmong? hfound).2 hop
      rw [howner]
      exact hmem
  | next _ _ h =>
      obtain ⟨before, a, registered, rest, op', -, -, -, hparent⟩ := exists_of_next? h
      obtain ⟨p, -, hdeclared⟩ := exists_of_parent? hparent
      rw [owner_of_declared (mem_of_declared? hdeclared)]
      exact mem_of_declared? hdeclared

/-- A call of the next implementation goes on behind the caller exactly if the operation does not
repeat. -/
theorem repeats_iff (hn : (w.ancestry c).Nodup) :
    w.Repeats c op ↔ ∃ op', w.Hop c op op' ∧ w.position c op'.owner ≤ w.position c op.owner := by
  constructor
  · rintro ⟨code, name, rest, hcode, hcaller, p, hp, hdeclared, hle⟩
    obtain ⟨before, a, registered, -, hsplit, -⟩ := exists_of_caller? hcaller
    have hsplit : w.lineage c = (before ++ [(a, registered)]) ++ rest := by simpa using hsplit
    have hsome : (w.parent? name rest).isSome = true := by
      obtain ⟨op', hop'⟩ := Option.isSome_iff_exists.mp hdeclared
      rw [parent?_eq_head?, List.isSome_head?]
      exact List.ne_nil_of_mem (List.mem_filterMap.mpr ⟨p, hp, hop'⟩)
    obtain ⟨op', hop'⟩ := Option.isSome_iff_exists.mp hsome
    refine ⟨op', ⟨code, hcode, ?_⟩, (position_parent?_le hn hsplit hop' hp hdeclared).trans hle⟩
    rw [next?, hcaller]
    exact hop'
  · rintro ⟨op', ⟨code, hcode, hnext⟩, hle⟩
    obtain ⟨⟨name, rest⟩, hcaller, hparent⟩ := Option.bind_eq_some_iff.mp hnext
    obtain ⟨p, hp, hdeclared⟩ := exists_of_parent? hparent
    refine ⟨code, name, rest, hcode, hcaller, p, hp, Option.isSome_iff_exists.mpr ⟨op', hdeclared⟩, ?_⟩
    rw [← owner_of_declared (mem_of_declared? hdeclared)]
    exact hle

/-- No code belongs to two operations of the ancestry. -/
def Unshared (w : World) (c : ClassId) : Prop :=
  ∀ a ∈ w.ancestry c, ∀ b ∈ w.ancestry c, ∀ op ∈ w.declared a, ∀ op' ∈ w.declared b,
    (w.runningCode? op).isSome = true → w.runningCode? op = w.runningCode? op' → a = b ∧ op.name = op'.name

instance : Decidable (w.Unshared c) :=
  inferInstanceAs (Decidable (∀ a ∈ w.ancestry c, ∀ b ∈ w.ancestry c, ∀ op ∈ w.declared a,
    ∀ op' ∈ w.declared b, (w.runningCode? op).isSome = true → w.runningCode? op = w.runningCode? op' →
      a = b ∧ op.name = op'.name))

/-- Where no code is shared, the caller is found where it is. -/
theorem not_repeats_of_unshared (hn : (w.ancestry c).Nodup) (hu : w.Unshared c) (hop : w.Reached c op) :
    ¬ w.Repeats c op := by
  rintro ⟨code, name, rest, hcode, hcaller, p, hp, -, hle⟩
  obtain ⟨before, a, registered, op', hsplit, hop', hcode', -⟩ := exists_of_caller? hcaller
  have ha : a ∈ w.ancestry c :=
    mem_ancestry_of_lineage (p := (a, registered)) (hsplit ▸ List.mem_append_right _ List.mem_cons_self)
  obtain ⟨howner, -⟩ := hu op.owner hop.owner a ha op hop.declared op' hop'
    (Option.isSome_iff_exists.mpr ⟨code, hcode⟩) (hcode.trans hcode'.symm)
  rw [howner, position_eq hn hsplit] at hle
  have hsplit : w.lineage c = (before ++ [(a, registered)]) ++ rest := by simpa using hsplit
  have hlt := le_position hn hsplit hp
  simp only [List.length_append, List.length_singleton] at hlt
  omega

theorem forall_hop_lt_iff (hn : (w.ancestry c).Nodup) :
    (∀ op', w.Hop c op op' → w.position c op.owner < w.position c op'.owner) ↔ ¬ w.Repeats c op := by
  rw [repeats_iff hn]
  push Not
  rfl

/-- Where each call goes on behind the caller, a chain of calls ends with the ancestry. -/
theorem length_le_of_isChain
    (h : ∀ op, w.Reached c op → ∀ op', w.Hop c op op' → w.position c op.owner < w.position c op'.owner)
    {ops : List Operation} (hop : w.Reached c op) (hchain : List.IsChain (w.Hop c) (op :: ops)) :
    w.position c op.owner + ops.length < (w.ancestry c).length := by
  induction ops generalizing op with
  | nil => exact position_lt hop.owner
  | cons op' ops ih =>
      obtain ⟨hhop, hrest⟩ := List.isChain_cons_cons.mp hchain
      obtain ⟨code, hcode, hnext⟩ := id hhop
      have hlt := h op hop op' hhop
      have hle := ih (hop.next hcode hnext) hrest
      simp only [List.length_cons]
      omega

end Introspect.World
