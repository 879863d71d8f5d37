import Introspect.Proofs.Perl.Data
import Introspect.Proofs.Perl.Restart
/-!
Cycles through keys and members. An encoder of its own starts with nothing in progress, so a cycle through
one is never cut. Where there is none, the references behind keys and members and those not in progress
bound the depth that writing takes.
-/
namespace Introspect.Perl

open World

/-- Some key or member that writing the reference reaches leads back to what it is a key or member of. -/
def Loops (w : World) (r : Ref) : Prop := ∃ x k, Reaches w r x ∧ Restarts w x k ∧ Reaches w k x

variable {w : World} {S : List Ref} {r c k x : Ref} {active : Active} {p : Path}

theorem Loops.of_reaches (h : Reaches w r c) (hc : Loops w c) : Loops w r := by
  obtain ⟨x, k, hx, hk, hback⟩ := hc
  exact ⟨x, k, h.trans hx, hk, hback⟩

/-! ## Without such a cycle some depth suffices -/

noncomputable def behind (w : World) (S : List Ref) (r : Ref) : Finset Ref :=
  open Classical in S.toFinset.filter fun y => ∃ x k, Reaches w r x ∧ Restarts w x k ∧ Reaches w k y

theorem mem_behind {y : Ref} : y ∈ behind w S r ↔
    y ∈ S ∧ ∃ x k, Reaches w r x ∧ Restarts w x k ∧ Reaches w k y := by
  simp only [behind, Finset.mem_filter, List.mem_toFinset]

theorem behind_mono (h : Reaches w r c) : behind w S c ⊆ behind w S r := by
  intro y hy
  obtain ⟨hy, x, k, hx, hk, hky⟩ := mem_behind.mp hy
  exact mem_behind.mpr ⟨hy, x, k, h.trans hx, hk, hky⟩

theorem behind_lt (hS : w.Closed S) (hr : r ∈ S) (hloop : ¬ Loops w r) (h : Restarts w r k) :
    (behind w S k).card < (behind w S r).card := by
  refine Finset.card_lt_card ⟨behind_mono (.single (.inr h)), fun hsub => ?_⟩
  have hk : k ∈ S := hS.parts r hr k (Writes.part (.inr h))
  obtain ⟨-, x, k', hx, hk', hback⟩ :=
    mem_behind.mp (hsub (mem_behind.mpr ⟨hk, r, k, .refl, h, .refl⟩))
  exact hloop ⟨x, k', (Relation.ReflTransGen.single (.inr h)).trans hx, hk', hback.trans hx⟩

def idle (S : List Ref) (active : Active) : Finset Ref :=
  S.toFinset.filter fun y => active.lookup y = none

theorem idle_subset : idle S active ⊆ S.toFinset := Finset.filter_subset _ _

theorem lookup_cons_eq_none {y : Ref} :
    ((r, p) :: active).lookup y = none ↔ y ≠ r ∧ active.lookup y = none := by
  rw [List.lookup_cons]
  by_cases hy : y = r
  · simp [hy]
  · simp [hy, beq_eq_false_iff_ne.mpr hy]

theorem idle_lt (hr : r ∈ S) (hl : active.lookup r = none) :
    (idle S ((r, p) :: active)).card < (idle S active).card := by
  refine Finset.card_lt_card ⟨fun y hy => ?_, fun hsub => ?_⟩
  · obtain ⟨hmem, hidle⟩ := Finset.mem_filter.mp hy
    exact Finset.mem_filter.mpr ⟨hmem, (lookup_cons_eq_none.mp hidle).2⟩
  · have hmem := hsub (Finset.mem_filter.mpr ⟨List.mem_toFinset.mpr hr, hl⟩)
    exact (lookup_cons_eq_none.mp (Finset.mem_filter.mp hmem).2).1 rfl

/-- A bound on the depth: an encoder of its own has less behind it, and may meet everything anew. -/
noncomputable def measure (w : World) (S : List Ref) (active : Active) (r : Ref) : Nat :=
  (behind w S r).card * (S.toFinset.card + 1) + (idle S active).card

theorem measure_writes (hr : r ∈ S) (hl : active.lookup r = none) (h : Writes w r c) :
    measure w S ((r, p) :: active) c < measure w S active r := by
  have hbehind : (behind w S c).card ≤ (behind w S r).card := Finset.card_le_card (behind_mono (.single h))
  have hidle : (idle S ((r, p) :: active)).card < (idle S active).card := idle_lt hr hl
  exact Nat.add_lt_add_of_le_of_lt (Nat.mul_le_mul_right _ hbehind) hidle

theorem measure_restarts (hS : w.Closed S) (hr : r ∈ S) (hloop : ¬ Loops w r) (h : Restarts w r k) :
    measure w S [] k < measure w S active r := by
  have hidle : (idle S []).card < S.toFinset.card + 1 := Nat.lt_succ_of_le (Finset.card_le_card idle_subset)
  calc measure w S [] k
      < (behind w S k).card * (S.toFinset.card + 1) + (S.toFinset.card + 1) := Nat.add_lt_add_left hidle _
    _ = ((behind w S k).card + 1) * (S.toFinset.card + 1) := (Nat.succ_mul _ _).symm
    _ ≤ (behind w S r).card * (S.toFinset.card + 1) := Nat.mul_le_mul_right _ (behind_lt hS hr hloop h)
    _ ≤ measure w S active r := Nat.le_add_right _ _

theorem Legible.keysSucceed (h : Legible w r) : KeysSucceed w r := fun entries hb e he n hn => by
  obtain ⟨s, hs⟩ := h.keys entries hb e he n hn
  exact ⟨s, hs.answer_eq⟩

theorem Legible.succeeds_leaf {depth : Nat} (h : Legible w r) (hleaf : isLeaf w r = true) :
    Succeeds (write w (depth + 1) active p r) := by
  unfold isLeaf at hleaf
  rw [write]
  unfold writeStep
  cases hb : w.body r with
  | atom a =>
      obtain ⟨t, ht⟩ := h.value a hb
      exact ⟨t, ht.answer_eq⟩
  | cls c => exact ⟨_, rfl⟩
  | routine f => exact ⟨_, rfl⟩
  | bound self f => exact ⟨_, rfl⟩
  | partialCall f => exact ⟨_, rfl⟩
  | methodWrapper => exact ⟨_, rfl⟩
  | _ => simp [hb] at hleaf

theorem succeeds_of_measure (hS : w.Closed S) {depth : Nat} (hd : measure w S active r + 2 ≤ depth)
    (hr : r ∈ S) (hloop : ¬ Loops w r) (hlegible : ∀ y, Reaches w r y → Legible w y) :
    Succeeds (write w depth active p r) := by
  -- Beyond the measure, one step is for a value with nothing below it and one for a plain key of it.
  induction depth using Nat.strong_induction_on generalizing active p r with
  | _ depth ih =>
    obtain ⟨depth, rfl⟩ := Nat.exists_eq_add_of_le' (Nat.le_of_add_left_le hd)
    cases hleaf : isLeaf w r with
    | true => exact (hlegible r .refl).succeeds_leaf hleaf
    | false =>
        cases hl : active.lookup r with
        | some q => exact ⟨.path q, writeStep_again hleaf hl⟩
        | none =>
            have hbelow {active' : Active} {c : Ref} (hc : Writes w r c) (q : Path)
                (hm : measure w S active' c < measure w S active r) :
                Succeeds (write w (depth + 1) active' q c) :=
              ih (depth + 1) (by omega) (by omega) (hS.parts r hr c hc.part)
                (fun hlc => hloop (.of_reaches (.single hc) hlc)) fun y hy => hlegible y (.head hc hy)
            exact succeeds_write hleaf hl
              (fun c hc q => hbelow hc q (measure_writes hr hl hc))
              (fun k hk => hbelow (.inr hk) .root (measure_restarts hS hr hloop hk))
              (hlegible r .refl).keysSucceed

/-! ## With one none does -/

/-- The second reference stands inside the first or inside what does. -/
def Encloses (w : World) : Ref → Ref → Prop := Relation.ReflTransGen w.Inside

/-- Writing the first reference with an encoder of its own does so with the second. -/
def Spawns (w : World) (r k : Ref) : Prop := ∃ x, Encloses w r x ∧ Restarts w x k

/-- Whatever is reached stands inside what some encoder starts with. -/
theorem Reaches.exists_spawned (h : Reaches w r x) :
    ∃ k, Relation.ReflTransGen (Spawns w) r k ∧ Encloses w k x := by
  induction h with
  | refl => exact ⟨r, .refl, .refl⟩
  | tail _ hc ih =>
      obtain ⟨k, hk, hx⟩ := ih
      rcases hc with hc | hc
      · exact ⟨k, hk, hx.tail hc⟩
      · exact ⟨_, hk.tail ⟨_, hx, hc⟩, .refl⟩

/-- The path leaves its start for good, or ends there. -/
theorem exists_leaving {P : Ref → Prop} (h : Relation.ReflTransGen (fun a b => w.Inside a b ∧ P b) r x) :
    x = r ∨ ∃ c, w.Inside r c ∧ c ≠ r ∧ P c ∧
      Relation.ReflTransGen (fun a b => w.Inside a b ∧ b ≠ r ∧ P b) c x := by
  induction h with
  | refl => exact .inl rfl
  | @tail y z _ hz ih =>
      by_cases hzr : z = r
      · exact .inl hzr
      · refine .inr ?_
        rcases ih with rfl | ⟨c, hc, hcr, hPc, hpath⟩
        · exact ⟨z, hz.1, hzr, hz.2, .refl⟩
        · exact ⟨c, hc, hcr, hPc, hpath.tail ⟨hz.1, hzr, hz.2⟩⟩

theorem succeeds_along {depth : Nat} (h : Succeeds (write w depth active p r))
    (hl : active.lookup r = none)
    (hpath : Relation.ReflTransGen (fun a b => w.Inside a b ∧ active.lookup b = none) r x) :
    ∃ d ≤ depth, ∃ active' q, active'.lookup x = none ∧ Succeeds (write w d active' q x) := by
  induction depth generalizing active p r with
  | zero => obtain ⟨t, ht⟩ := h; cases ht
  | succ depth ih =>
      rcases exists_leaving hpath with rfl | ⟨c, hc, hcr, hlc, hrest⟩
      · exact ⟨depth + 1, le_rfl, active, p, hl, h⟩
      · have hleaf : isLeaf w r = false := Bool.eq_false_iff.mpr fun hleaf => inside_leaf hleaf c hc
        obtain ⟨q, hq⟩ := (of_succeeds_write hleaf hl h).1 c hc
        have havoid : ∀ a b, w.Inside a b ∧ b ≠ r ∧ active.lookup b = none →
            w.Inside a b ∧ ((r, p) :: active).lookup b = none :=
          fun a b hab => hab.imp_right lookup_cons_eq_none.mpr
        obtain ⟨d, hd, hfull⟩ := ih hq (lookup_cons_eq_none.mpr ⟨hcr, hlc⟩)
          (Relation.ReflTransGen.mono havoid _ _ hrest)
        exact ⟨d, Nat.le_succ_of_le hd, hfull⟩

theorem succeeds_enclosed {depth : Nat} (h : Succeeds (write w depth [] .root r)) (hx : Encloses w r x) :
    ∃ d ≤ depth, ∃ active q, active.lookup x = none ∧ Succeeds (write w d active q x) :=
  succeeds_along h rfl (Relation.ReflTransGen.mono (fun _ _ hab => ⟨hab, rfl⟩) _ _ hx)

/-- An encoder of its own takes less depth. -/
theorem succeeds_spawned {depth : Nat} (h : Succeeds (write w depth [] .root r)) (hk : Spawns w r k) :
    ∃ d < depth, Succeeds (write w d [] .root k) := by
  obtain ⟨x, hx, hk⟩ := hk
  obtain ⟨d, hd, active, q, hl, hfull⟩ := succeeds_enclosed h hx
  have hleaf : isLeaf w x = false := Bool.eq_false_iff.mpr fun hleaf => restarts_leaf hleaf hk
  cases d with
  | zero => obtain ⟨t, ht⟩ := hfull; cases ht
  | succ d => exact ⟨d, hd, (of_succeeds_write hleaf hl hfull).2.1 k hk⟩

theorem succeeds_of_spawns {depth : Nat} (h : Succeeds (write w depth [] .root r))
    (hk : Relation.ReflTransGen (Spawns w) r k) : ∃ d, Succeeds (write w d [] .root k) := by
  induction hk with
  | refl => exact ⟨depth, h⟩
  | tail _ hk ih =>
      obtain ⟨d, hd⟩ := ih
      obtain ⟨d', _, hd'⟩ := succeeds_spawned hd hk
      exact ⟨d', hd'⟩

theorem not_succeeds_of_spawns_self (h : Relation.TransGen (Spawns w) k k) (depth : Nat) :
    ¬ Succeeds (write w depth [] .root k) := by
  have hless {r k' : Ref} (hk : Relation.TransGen (Spawns w) r k') : ∀ {depth : Nat},
      Succeeds (write w depth [] .root r) → ∃ d < depth, Succeeds (write w d [] .root k') := by
    induction hk with
    | single hk => exact fun hr => succeeds_spawned hr hk
    | tail _ hk ih =>
        intro depth hr
        obtain ⟨d, hd, hmid⟩ := ih hr
        obtain ⟨d', hd', hk'⟩ := succeeds_spawned hmid hk
        exact ⟨d', Nat.lt_trans hd' hd, hk'⟩
  -- Writing it comes back to it with less depth, and never runs out.
  induction depth using Nat.strong_induction_on with
  | _ depth ih =>
    intro hk
    obtain ⟨d, hd, hk'⟩ := hless h hk
    exact ih d hd hk'

theorem not_loops_of_succeeds {depth : Nat} (h : Succeeds (write w depth [] .root r)) : ¬ Loops w r := by
  rintro ⟨x, k, hx, hk, hback⟩
  obtain ⟨k₀, hk₀, hx₀⟩ := hx.exists_spawned
  obtain ⟨k₁, hk₁, hx₁⟩ := hback.exists_spawned
  obtain ⟨d, hd⟩ := succeeds_of_spawns h (hk₀.tail ⟨x, hx₀, hk⟩)
  have hcycle : Relation.TransGen (Spawns w) k k := .tail' hk₁ ⟨x, hx₁, hk⟩
  exact not_succeeds_of_spawns_self hcycle d hd

theorem legible_of_succeeds (hG : Graph w S) {depth : Nat} (hx : x ∈ S) (hl : active.lookup x = none)
    (h : Succeeds (write w depth active p x)) : Legible w x := by
  cases depth with
  | zero => obtain ⟨t, ht⟩ := h; cases ht
  | succ depth =>
      refine ⟨fun a ha => ?_, fun entries hb e he n hn => ?_⟩
      · rw [write, writeStep, ha] at h
        obtain ⟨t, ht⟩ := h
        exact ⟨t, ht ▸ settles_answer (hG.values x hx a ha)⟩
      · have hleaf : isLeaf w x = false := by simp only [isLeaf, hb]
        obtain ⟨s, hs⟩ := (of_succeeds_write hleaf hl h).2.2 entries hb e he n hn
        exact ⟨s, hs ▸ settles_answer (hG.numbers e.1 (hG.key hx hb he) n hn)⟩

/-- A value settles on a text exactly if every plain value in it has a text and no key or member leads
back to what it is a key or member of. -/
theorem settles_encode_text_iff (hG : Graph w S) (hr : r ∈ S) (indent : Int) :
    (∃ text, w.Settles (encode r indent) (.ok text)) ↔
      (∀ x, Reaches w r x → Legible w x) ∧ ¬ Loops w r := by
  constructor
  · rintro ⟨text, h⟩
    obtain ⟨depth, t, ht, -⟩ := (settles_encode_iff hG hr indent text).mp h
    refine ⟨fun x hx => ?_, not_loops_of_succeeds ⟨t, ht⟩⟩
    obtain ⟨k, hk, hkx⟩ := hx.exists_spawned
    obtain ⟨d, hd⟩ := succeeds_of_spawns ⟨t, ht⟩ hk
    obtain ⟨d', -, active, q, hl, hfull⟩ := succeeds_enclosed hd hkx
    exact legible_of_succeeds hG (hx.mem hG.toClosed hr) hl hfull
  · rintro ⟨hlegible, hloop⟩
    have hends : Succeeds (write w (measure w S [] r + 2) [] .root r) :=
      succeeds_of_measure hG.toClosed le_rfl hr hloop hlegible
    obtain ⟨t, ht⟩ := hends
    exact ⟨_, (settles_encode_iff hG hr indent _).mpr ⟨_, t, ht, rfl⟩⟩

/-! ## Computing what is written on its own -/

def boxed (content : Ref) : Cell := ⟨.native .scalar, .box content false, [], none⟩

def dict (entries : List (Ref × Ref)) : Cell := ⟨.native .dict, .mapping entries, [], none⟩

def list (items : List Ref) : Cell := ⟨.native .list, .sequence items, [], none⟩

def set (items : List Ref) : Cell := ⟨.native .set, .members items, [], none⟩

/-- A box around a mapping that has the box under a one. -/
def ownValue : World :=
  { Session.initialWorld with cells := #[boxed (.cell 1), dict [(intRef 1, .cell 0)]] }

/-- A box around a mapping that has a one under the box. -/
def ownKey : World :=
  { Session.initialWorld with cells := #[boxed (.cell 1), dict [(.cell 0, intRef 1)]] }

def boxRefs : List Ref := [.cell 0, .cell 1, intRef 1]

theorem graph_ownValue : Graph ownValue boxRefs :=
  graph_of_isData Registry.sound_empty (by decide) (by decide) (by decide)

theorem graph_ownKey : Graph ownKey boxRefs :=
  graph_of_isData Registry.sound_empty (by decide) (by decide) (by decide)

theorem loops_ownKey : Loops ownKey (.cell 0) := by
  have hinside : ownKey.Inside (.cell 0) (.cell 1) := .content (t := false) rfl
  have hkey : Restarts ownKey (.cell 1) (.cell 0) := .key (v := intRef 1) rfl (by decide) (by decide)
  exact ⟨.cell 1, .cell 0, .single (.inl hinside), hkey, .single (.inl hinside)⟩

/-- The box that holds itself as a key is written under no limit of nesting. -/
theorem encode_ownKey :
    failed (encode (.cell 0) 0) ownKey = some .nesting ∧
      ¬ ∃ text, ownKey.Settles (encode (.cell 0) 0) (.ok text) := by
  refine ⟨by decide +kernel, ?_⟩
  rintro ⟨text, h⟩
  obtain ⟨depth, t, ht, -⟩ := (settles_encode_iff graph_ownKey (by decide) 0 text).mp h
  exact not_loops_of_succeeds ⟨t, ht⟩ loops_ownKey

theorem restarts_ownValue {x k : Ref} (hx : x ∈ boxRefs) : ¬ Restarts ownValue x k := by
  have hplain : ownValue.isPlain (intRef 1) = true := by decide
  simp only [boxRefs, List.mem_cons, List.not_mem_nil, or_false] at hx
  rcases hx with rfl | rfl | rfl
  · exact not_restarts (fun _ h => by cases h) (fun _ h => by cases h)
  · rintro (⟨hb, -⟩ | ⟨hb, he, hk⟩)
    · cases hb
    · cases hb
      cases List.mem_singleton.mp he
      rw [hplain] at hk
      cases hk
  · exact not_restarts (fun _ h => by cases h) (fun _ h => by cases h)

theorem legible_ownValue {x : Ref} (hx : x ∈ boxRefs) : Legible ownValue x := by
  have hone : ownValue.IsOrdinary (intRef 1) (Atom.int 1) := .atom ownValue (Atom.int 1)
  simp only [boxRefs, List.mem_cons, List.not_mem_nil, or_false] at hx
  rcases hx with rfl | rfl | rfl
  · exact ⟨fun a ha => (by cases ha), fun entries hb => (by cases hb)⟩
  · refine ⟨fun a ha => (by cases ha), fun entries hb e he n hn => ?_⟩
    cases hb
    cases List.mem_singleton.mp he
    exact ⟨_, settles_textOf_number hone⟩
  · refine ⟨fun a ha => ?_, fun entries hb => (by cases hb)⟩
    cases ha
    exact ⟨_, settles_atomTerm (by decide) hone.has hone.body⟩

/-- The box that holds itself as a value is written. -/
theorem encode_ownValue : ∃ text, ownValue.Settles (encode (.cell 0) 0) (.ok text) := by
  refine (settles_encode_text_iff graph_ownValue (by decide) 0).mpr ⟨fun x hx => ?_, ?_⟩
  · exact legible_ownValue (hx.mem graph_ownValue.toClosed (by decide))
  · rintro ⟨x, k, hx, hk, -⟩
    exact restarts_ownValue (hx.mem graph_ownValue.toClosed (by decide)) hk

end Introspect.Perl
