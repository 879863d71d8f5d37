import Introspect.Proofs.Reflect.Parent
/-!
A call of the next implementation. It asks for the ancestry of the subject, which registers the classes
there, and then fails, or reports and calls the operation that the search leads to.
-/
namespace Introspect.World

open Dispatch

variable {w : World} {c : ClassId} {g : Registry} {code : Routine} {name : String} {ancestry : Ancestry}

@[simp] theorem caller?_registered : (w.registered g).caller? code ancestry = w.caller? code ancestry := by
  induction ancestry with
  | nil => rfl
  | cons p rest ih => simp only [caller?, declared_registered, entryCode?_registered, ih]

@[simp] theorem parent?_registered : (w.registered g).parent? name ancestry = w.parent? name ancestry := by
  induction ancestry with
  | nil => rfl
  | cons p rest ih => simp only [parent?, declared?, declared_registered, ih]

/-- The descriptors of an ancestry name its classes. -/
theorem mapM_descriptor_eq {ids : List Nat} {cs : List ClassId} (hs : w.registry.Sound)
    (h : List.Forall₂ (w.Describes g) ids cs) :
    (ids.mapM fun id => do
        let d ← Registry.descriptor id
        return (d.cls, d.name)) (w.registered g) =
      .ok (cs.map fun c => (c, (w.descriptorOf c).name)) (w.registered g) := by
  induction h with
  | nil => rfl
  | @cons id c ids cs hd _ ih =>
      have hpair : (do
          let d ← Registry.descriptor id
          return (d.cls, d.name)) (w.registered g) =
          .ok (c, (w.descriptorOf c).name) (w.registered g) := by
        rw [run_bind_ok (descriptor_eq (w := w.registered g) hd), cls_descriptorOf hs]
        rfl
      rw [List.mapM_cons, run_bind_ok hpair, run_bind_ok ih]
      rfl

/-- What is reported when an operation is called next. -/
def report (qname name : String) (op : Operation) : Act String := do
  let holder ← Registry.qname (← Registry.ofClass op.owner)
  return "super " ++ qname ++ "." ++ name ++ " -> " ++ holder ++ "." ++ op.name

def callReported (ask : Ask) (qname name : String) (op : Operation) (view : View) (subject : Ref)
    (type : Nat) (args : List Ref) (keywords : List (String × Ref)) : Act Ref := do
  Log.debug ask (report qname name op)
  let (receiver, cls) ← superTarget view subject type
  callOn ask op receiver cls args keywords

variable {ask : Ask} {view : View} {subject : Ref}

/-- How a call of the next implementation goes on when its type is known. -/
def following (w : World) (d : Descriptor) (ask : Ask) (code : Option Routine) (codeName : String)
    (view : View) (subject : Ref) (type : Nat) (args : List Ref) (keywords : List (String × Ref)) :
    Act Ref :=
  match code.bind (w.caller? · (w.lineage d.cls)) with
  | none => throw (.notMember codeName d.qname)
  | some (name, rest) =>
    match w.parent? name rest with
    | none => throw (.noParent name d.qname)
    | some op => callReported ask d.qname name op view subject type args keywords

/-- A call of the next implementation registers the ancestry, and then goes on as the search says. -/
theorem callParent_eq {d : Descriptor} (code : Option Routine) (codeName : String) (args : List Ref)
    (keywords : List (String × Ref)) (hs : w.registry.Sound)
    (ht : w.Identifies (viewType ask view subject) d) (ha : w.isAlive d.cls = true) :
    ∃ g id, w.Enrolls g ∧ g.descriptor? id = some d ∧
      callParent ask code codeName view subject args keywords w =
        w.following d ask code codeName view subject id args keywords (w.registered g) := by
  obtain ⟨g, id, hg, htype, hd⟩ := ht
  rw [← hg.isAlive] at ha
  obtain ⟨g', ids, hg', hids, hdescribes⟩ := ancestry_eq hg.sound hd ha
  have hd' : g'.descriptor? id = some d := hg'.leads.grows.descriptor? hd
  have hlineage := mapM_descriptor_eq hg.sound hdescribes
  rw [ancestry_registered] at hlineage
  simp only [descriptorOf_grows hs hg.leads.grows] at hlineage
  have hname : Registry.qname id ((w.registered g).registered g') =
      .ok d.qname ((w.registered g).registered g') := by
    rw [Registry.qname, run_bind_ok (descriptor_eq hd')]
    rfl
  refine ⟨g', id, hg.trans hg', hd', ?_⟩
  rw [callParent, run_bind_ok htype, run_bind_ok hids, run_bind_ok hlineage, run_bind_ok hname, run_get,
    following]
  simp only [caller?_registered, parent?_registered]
  rfl

/-! ## Progress -/

variable {r : Ref} {op op' : Operation}

/-- Where the first operation runs, a call of the next implementation on the subject calls the second. -/
def Continues (w : World) (r : Ref) (op op' : Operation) : Prop :=
  ∀ ask codeName args keywords, ∃ g id name, w.Enrolls g ∧
    callParent ask (w.runningCode? op) codeName .asData r args keywords w =
      callReported ask (Registry.typeName w r) name op' .asData r id args keywords (w.registered g)

theorem continues_of_hop (hs : w.registry.Sound) (ha : w.isAlive (w.classOf r) = true)
    (h : w.Hop (w.classOf r) op op') : w.Continues r op op' := by
  obtain ⟨code, hcode, hnext⟩ := h
  obtain ⟨⟨name, rest⟩, hcaller, hparent⟩ := Option.bind_eq_some_iff.mp hnext
  intro ask codeName args keywords
  rw [← cls_descriptorOf (w := w) (c := w.classOf r) hs] at ha
  obtain ⟨g, id, hg, -, hrun⟩ := callParent_eq (w.runningCode? op) codeName args keywords hs
    (identifies_asData hs ask r) ha
  refine ⟨g, id, name, hg, hrun.trans ?_⟩
  rw [following, cls_descriptorOf hs, hcode, Option.bind_some, hcaller]
  simp only [hparent, typeName_eq]

/-- A call of the next implementation leads to a later class of the ancestry exactly if the operation
that runs does not repeat. Where no operation repeats, no chain of calls is longer than the ancestry. -/
theorem hop_lt_iff_not_repeats (hs : w.registry.Sound) (ha : w.isAlive (w.classOf r) = true)
    (hn : (w.ancestry (w.classOf r)).Nodup) :
    (∀ op op', w.Hop (w.classOf r) op op' → w.Continues r op op') ∧
    (∀ op, w.Reached (w.classOf r) op →
      ((∀ op', w.Hop (w.classOf r) op op' →
          w.position (w.classOf r) op.owner < w.position (w.classOf r) op'.owner) ↔
        ¬ w.Repeats (w.classOf r) op)) ∧
    ((∀ op, w.Reached (w.classOf r) op → ¬ w.Repeats (w.classOf r) op) →
      ∀ op ops, w.Reached (w.classOf r) op → List.IsChain (w.Hop (w.classOf r)) (op :: ops) →
        ops.length < (w.ancestry (w.classOf r)).length) := by
  refine ⟨fun op op' h => continues_of_hop hs ha h, fun op _ => forall_hop_lt_iff hn, ?_⟩
  intro hnot op ops hop hchain
  have hlater : ∀ op, w.Reached (w.classOf r) op → ∀ op', w.Hop (w.classOf r) op op' →
      w.position (w.classOf r) op.owner < w.position (w.classOf r) op'.owner :=
    fun op hop => (forall_hop_lt_iff hn).mpr (hnot op hop)
  have hlt := length_le_of_isChain hlater hop hchain
  omega

/-! ## A method that is borrowed, and one that is not -/

/-- A class with the entry of its parent, a method that calls the next implementation. -/
def borrowing : World :=
  { withParent sizeMethod sizeMethod with
    functions := #[⟨"size", .super [] [] none false, true, none, false, false⟩]
    cells := #[⟨.declared 1, .nothing, [], some []⟩] }

def ownSize : Operation := ⟨.declared 1, "size", sizeMethod, true⟩

def inheritedSize : Operation := ⟨.declared 0, "size", sizeMethod, false⟩

/-- Called from the class that borrows it, the parent's method calls itself, and so on. -/
theorem hop_borrowed :
    borrowing.Reached (.declared 1) inheritedSize ∧
    borrowing.Hop (.declared 1) inheritedSize inheritedSize ∧
    failed (perform 40 (.call (.routine (.function 0)) [.cell 0] [])) borrowing = some .nesting := by
  have hcaller : borrowing.caller? (.function 0) (borrowing.lineage (.declared 1)) =
      some (PrivateName.plain "Derived" "size", [(.declared 0, "Base"), (.native .object, "object")]) := by
    rfl
  have hplain : PrivateName.plain "Derived" "size" = "size" := by decide +kernel
  have hparent : borrowing.parent? "size" [(.declared 0, "Base"), (.native .object, "object")] =
      (borrowing.declared? (.declared 0) (PrivateName.key "Base" "size")).or
        (borrowing.parent? "size" [(.native .object, "object")]) := by rfl
  have hkey : PrivateName.key "Base" "size" = "size" := by decide +kernel
  have hnext : borrowing.next? (.declared 1) (.function 0) = some inheritedSize := by
    rw [next?, hcaller, hplain, Option.bind_some, hparent, hkey]
    rfl
  have hdispatched : borrowing.dispatched? (.declared 1) "size" = some ownSize := by rfl
  refine ⟨.next (.dispatch hdispatched) rfl hnext, ⟨_, rfl, hnext⟩, by decide +kernel⟩

/-- A class with a method of its own under the name of its parent's. -/
def overriding : World :=
  { withParent sizeMethod (.value (.routine (.function 1))) with
    functions := #[⟨"size", .super [] [] none false, true, none, false, false⟩,
      ⟨"size", .super [] [] none false, true, none, false, false⟩]
    cells := #[⟨.declared 1, .nothing, [], some []⟩] }

/-- Three classes allow for two calls. -/
theorem length_overriding :
    overriding.registry.Sound ∧ overriding.isAlive (overriding.classOf (.cell 0)) = true ∧
    (overriding.ancestry (overriding.classOf (.cell 0))).Nodup ∧
    ∀ op ops, overriding.Reached (.declared 1) op →
      List.IsChain (overriding.Hop (.declared 1)) (op :: ops) → ops.length < 3 := by
  have ha : overriding.isAlive (overriding.classOf (.cell 0)) = true := by decide
  have hn : (overriding.ancestry (overriding.classOf (.cell 0))).Nodup := by decide
  have hu : overriding.Unshared (.declared 1) := by decide
  refine ⟨Registry.sound_empty, ha, hn, ?_⟩
  exact (hop_lt_iff_not_repeats Registry.sound_empty ha hn).2.2 fun op hop => not_repeats_of_unshared hn hu hop

end Introspect.World
