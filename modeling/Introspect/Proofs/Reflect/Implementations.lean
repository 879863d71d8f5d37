import Introspect.Proofs.Reflect.Parent
import Introspect.Proofs.Reflect.PrivateName
/-!
The implementations of an operation along an ancestry. Where no code is shared, the search for what
follows one of them finds the next.
-/
namespace Introspect.World

/-- The operations of a name, each as its class writes the name. -/
def implementations (w : World) (c : ClassId) (name : String) : List Operation :=
  (w.lineage c).filterMap fun p => w.declared? p.1 (PrivateName.key p.2 name)

/-- Each class of the ancestry reads the name back from what it writes for it. -/
def HasProperName (w : World) (c : ClassId) (name : String) : Prop :=
  ∀ a ∈ w.ancestry c, PrivateName.IsProper (w.descriptorOf a).name name

variable {w : World} {c : ClassId} {code : Routine} {name : String} {done later : List Operation}
  {op : Operation}

theorem hasProperName_of_public (h : isPrivateName name = false) : w.HasProperName c name :=
  fun _ _ => PrivateName.isProper_of_public h

theorem hasProperName_of_isMarked (h : PrivateName.isMarked name = true) : w.HasProperName c name :=
  fun _ _ => .inl h

theorem mem_implementations (h : op ∈ w.implementations c name) :
    op.owner ∈ w.ancestry c ∧ op ∈ w.declared op.owner := by
  obtain ⟨p, hp, hdeclared⟩ := List.mem_filterMap.mp h
  have hmem := mem_of_declared? hdeclared
  rw [owner_of_declared hmem]
  exact ⟨mem_ancestry_of_lineage hp, hmem⟩

/-- The code of an implementation leads back to it, and behind it stand the implementations that follow. -/
theorem caller?_of_implementations (hn : (w.ancestry c).Nodup) (hu : w.Unshared c)
    (hname : w.HasProperName c name) (h : w.implementations c name = done ++ op :: later)
    (hcode : w.runningCode? op = some code) :
    ∃ rest, w.caller? code (w.lineage c) = some (name, rest) ∧ w.parent? name rest = later.head? := by
  obtain ⟨before, behind, hsplit, -, hbehind⟩ := List.filterMap_eq_append_iff.mp h
  obtain ⟨between, ⟨a, registered⟩, rest, rfl, -, hop, hlater⟩ := List.filterMap_eq_cons_iff.mp hbehind
  have hsplit : w.lineage c = (before ++ between) ++ (a, registered) :: rest := by simpa using hsplit
  have hpair : (a, registered) ∈ w.lineage c := by
    rw [hsplit]
    exact List.mem_append_right _ List.mem_cons_self
  have ha : a ∈ w.ancestry c := mem_ancestry_of_lineage hpair
  have hregistered : registered = (w.descriptorOf a).name := by
    obtain ⟨a', -, heq⟩ := List.mem_map.mp hpair
    cases heq
    rfl
  have hmem := mem_of_declared? hop
  have hsome : (w.runningCode? op).isSome = true := Option.isSome_iff_exists.mpr ⟨code, hcode⟩
  -- An operation with the code is the one of the class.
  have hsame : ∀ b ∈ w.ancestry c, ∀ op' ∈ w.declared b, w.runningCode? op' = some code →
      a = b ∧ op.name = op'.name := fun b hb op' hop' hcode' =>
    hu a ha b hb op hmem op' hop' hsome (hcode.trans hcode'.symm)
  have hnot : ∀ q ∈ before ++ between, ∀ op' ∈ w.declared q.1, w.runningCode? op' ≠ some code := by
    intro q hq op' hop' hcode'
    have hanc := ancestry_eq_of_lineage hsplit
    have hq' : q.1 ∈ (before ++ between).map (·.1) := List.mem_map_of_mem hq
    obtain ⟨rfl, -⟩ := hsame q.1 (hanc ▸ List.mem_append_left _ hq') op' hop' hcode'
    rw [hanc] at hn
    exact List.disjoint_of_nodup_append hn hq' List.mem_cons_self
  obtain ⟨found, hfound⟩ : ∃ found, ((w.declared a).find? fun op => w.runningCode? op = some code) = some found := by
    rw [← Option.isSome_iff_exists, List.find?_isSome]
    exact ⟨op, hmem, by simpa using hcode⟩
  have hfoundCode : w.runningCode? found = some code := by simpa using List.find?_some hfound
  have hfoundName : found.name = PrivateName.key registered name := by
    rw [← (hsame a ha found (List.mem_of_find?_eq_some hfound) hfoundCode).2]
    exact name_of_declared? hop
  refine ⟨rest, ?_, ?_⟩
  · rw [hsplit, caller?_append hnot, caller?_cons hfound, hfoundName, hregistered,
      PrivateName.plain_key (hname a ha)]
  · rw [parent?_eq_head?, hlater]

end Introspect.World
