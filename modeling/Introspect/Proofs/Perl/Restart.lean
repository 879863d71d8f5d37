import Introspect.Proofs.Perl.Writing
/-!
Which values can be written. Keys and members are written by encoders of their own, which do not know
what is being written around them. A cycle through such a value is written without end; every other
cycle is cut where it closes.
-/
namespace Introspect.Perl

open World

/-- The first reference has the second written by an encoder of its own: a member, or a key that is no
plain value. -/
inductive Restarts (w : World) (r k : Ref) : Prop where
  | member {items} : w.body r = .members items → k ∈ items → Restarts w r k
  | key {entries v} : w.body r = .mapping entries → (k, v) ∈ entries → w.isPlain k = false →
      Restarts w r k

def Writes (w : World) (r c : Ref) : Prop := w.Inside r c ∨ Restarts w r c

def Reaches (w : World) : Ref → Ref → Prop := Relation.ReflTransGen (Writes w)

/-- A plain value has a term, and the numbers among the keys of a mapping have texts. -/
structure Legible (w : World) (r : Ref) : Prop where
  value : ∀ a, w.body r = .atom a → ∃ t, w.Settles (atomTerm r a) (.ok t)
  keys : ∀ entries, w.body r = .mapping entries → ∀ e ∈ entries, ∀ n, w.body e.1 = .atom (.number n) →
    ∃ s, w.Settles (Dispatch.ask.textOf e.1) (.ok s)

variable {w : World} {S : List Ref} {r c k : Ref} {active : Active} {p : Path}

theorem Writes.part (h : Writes w r c) : w.Part r c := by
  rcases h with h | ⟨hb, hk⟩ | ⟨hb, hk, -⟩
  · exact .inl h
  · exact .inr (.member hb hk)
  · exact .inr (.key hb hk)

theorem Reaches.parts (h : Reaches w r c) : Relation.ReflTransGen w.Part r c :=
  Relation.ReflTransGen.mono (fun _ _ => Writes.part) _ _ h

theorem Reaches.mem (hS : w.Closed S) (hr : r ∈ S) (h : Reaches w r c) : c ∈ S := hS.mem_of_parts hr h.parts

/-! ## Successful parts -/

section Parts

variable {recur : Active → Path → Ref → Except Fault Term}

theorem forall₂_of_writtenItems {P : Term → Ref → Prop} {index : Nat} {items : List Ref} {ts : List Term}
    (h : writtenItems recur active p index items = .ok ts)
    (hP : ∀ i c, items[i]? = some c → ∀ t, recur active (.item p (index + i)) c = .ok t → P t c) :
    List.Forall₂ P ts items := by
  induction items generalizing index ts with
  | nil => cases h; exact .nil
  | cons c rest ih =>
      obtain ⟨t, ht, h⟩ := bind_ok_iff.mp h
      obtain ⟨found, hfound, h⟩ := bind_ok_iff.mp h
      cases h
      refine .cons (hP 0 c rfl t ht) (ih hfound fun i c' hc' t' ht' => hP (i + 1) c' hc' t' ?_)
      rwa [Nat.add_right_comm] at ht'

theorem forall₂_of_writtenEntries {P : Term → Ref → Prop} {pairs : List (List Char × Ref)}
    {ts : List (List Char × Term)} (h : writtenEntries recur active p pairs = .ok ts)
    (hP : ∀ y ∈ pairs, ∀ t, recur active (.entry p y.1) y.2 = .ok t → P t y.2) :
    ts.map (·.1) = pairs.map (·.1) ∧ List.Forall₂ P (ts.map (·.2)) (pairs.map (·.2)) := by
  induction pairs generalizing ts with
  | nil => cases h; exact ⟨rfl, .nil⟩
  | cons y rest ih =>
      obtain ⟨t, ht, h⟩ := bind_ok_iff.mp h
      obtain ⟨found, hfound, h⟩ := bind_ok_iff.mp h
      cases h
      obtain ⟨hkeys, hvalues⟩ := ih hfound fun y' hy' => hP y' (List.mem_cons_of_mem _ hy')
      exact ⟨congrArg (y.1 :: ·) hkeys, .cons (hP y List.mem_cons_self t ht) hvalues⟩

theorem of_succeeds_items {index : Nat} {items : List Ref}
    (h : Succeeds (writtenItems recur active p index items)) :
    ∀ c ∈ items, ∃ q, Succeeds (recur active q c) := by
  induction items generalizing index with
  | nil => exact fun c hc => absurd hc List.not_mem_nil
  | cons r rest ih =>
      obtain ⟨t, ht, hrest⟩ := succeeds_bind.mp h
      obtain ⟨found, hfound, -⟩ := succeeds_bind.mp hrest
      exact List.forall_mem_cons.mpr ⟨⟨_, t, ht⟩, ih ⟨found, hfound⟩⟩

theorem succeeds_items {items : List Ref} (h : ∀ c ∈ items, ∀ q, Succeeds (recur active q c))
    (index : Nat) : Succeeds (writtenItems recur active p index items) := by
  induction items generalizing index with
  | nil => exact ⟨[], rfl⟩
  | cons r rest ih =>
      obtain ⟨t, ht⟩ := h r List.mem_cons_self (.item p index)
      obtain ⟨found, hfound⟩ := ih (fun c hc => h c (List.mem_cons_of_mem _ hc)) (index + 1)
      exact succeeds_bind.mpr ⟨t, ht, succeeds_bind.mpr ⟨found, hfound, _, rfl⟩⟩

theorem of_succeeds_entries {pairs : List (List Char × Ref)}
    (h : Succeeds (writtenEntries recur active p pairs)) :
    ∀ e ∈ pairs, ∃ q, Succeeds (recur active q e.2) := by
  induction pairs with
  | nil => exact fun c hc => absurd hc List.not_mem_nil
  | cons e rest ih =>
      obtain ⟨t, ht, hrest⟩ := succeeds_bind.mp h
      obtain ⟨found, hfound, -⟩ := succeeds_bind.mp hrest
      exact List.forall_mem_cons.mpr ⟨⟨_, t, ht⟩, ih ⟨found, hfound⟩⟩

theorem succeeds_entries {pairs : List (List Char × Ref)}
    (h : ∀ e ∈ pairs, ∀ q, Succeeds (recur active q e.2)) :
    Succeeds (writtenEntries recur active p pairs) := by
  induction pairs with
  | nil => exact ⟨[], rfl⟩
  | cons e rest ih =>
      obtain ⟨t, ht⟩ := h e List.mem_cons_self (.entry p e.1)
      obtain ⟨found, hfound⟩ := ih fun e he => h e (List.mem_cons_of_mem _ he)
      exact succeeds_bind.mpr ⟨t, ht, succeeds_bind.mpr ⟨found, hfound, _, rfl⟩⟩

theorem succeeds_array {items : List Ref} :
    Succeeds (writtenArray recur active p items) ↔ Succeeds (writtenItems recur active p 0 items) := by
  unfold writtenArray
  rw [← map_eq_pure_bind, succeeds_map]

theorem succeeds_hash {pairs : List (List Char × Ref)} :
    Succeeds (writtenHash recur active p pairs) ↔
      Succeeds (writtenEntries recur active p (byText pairs)) := by
  unfold writtenHash
  rw [← map_eq_pure_bind, succeeds_map]

theorem succeeds_text : Succeeds (writtenText recur r) ↔ Succeeds (recur [] .root r) := by
  unfold writtenText
  rw [← map_eq_pure_bind, succeeds_map]

theorem succeeds_key_number {n : Number} (hk : w.body k = .atom (.number n)) :
    Succeeds (writtenKey w recur k) ↔ Succeeds (w.answer (Dispatch.ask.textOf k)) := by
  simp only [writtenKey, atom?, hk]
  exact succeeds_map

theorem succeeds_key_of_not_isPlain (hk : w.isPlain k = false) :
    Succeeds (writtenKey w recur k) ↔ Succeeds (recur [] .root k) := by
  rw [isPlain, Option.isSome_eq_false_iff, Option.isNone_iff_eq_none] at hk
  simp only [writtenKey, hk]
  exact succeeds_text

def KeysSucceed (w : World) (r : Ref) : Prop :=
  ∀ entries, w.body r = .mapping entries → ∀ e ∈ entries, ∀ n, w.body e.1 = .atom (.number n) →
    Succeeds (w.answer (Dispatch.ask.textOf e.1))

theorem of_succeeds_mapping {entries : List (Ref × Ref)}
    (h : Succeeds (writtenMapping w recur active p entries)) :
    (∀ e ∈ entries, ∃ q, Succeeds (recur active q e.2)) ∧
      ∀ e ∈ entries, Succeeds (writtenKey w recur e.1) := by
  obtain ⟨pairs, hpairs, hhash⟩ := succeeds_bind.mp h
  refine ⟨fun e he => ?_, succeeds_kept.mp ⟨pairs, hpairs⟩⟩
  obtain ⟨y, hy, hk⟩ := exists_of_mapM hpairs he
  obtain ⟨text, -, hk⟩ := bind_ok_iff.mp hk
  cases hk
  exact of_succeeds_entries (succeeds_hash.mp hhash) _ (mem_byText.mpr hy)

theorem succeeds_mapping {entries : List (Ref × Ref)}
    (hvalues : ∀ e ∈ entries, ∀ q, Succeeds (recur active q e.2))
    (hkeys : ∀ e ∈ entries, Succeeds (writtenKey w recur e.1)) :
    Succeeds (writtenMapping w recur active p entries) := by
  obtain ⟨pairs, hpairs⟩ := succeeds_kept (k := Prod.snd).mpr hkeys
  refine succeeds_bind.mpr ⟨pairs, hpairs, succeeds_hash.mpr (succeeds_entries fun y hy q => ?_)⟩
  exact forall_kept (P := fun c => Succeeds (recur active q c)) hpairs (fun e he => hvalues e he q) y
    (mem_byText.mp hy)

theorem of_succeeds_members {items : List Ref} (h : Succeeds (writtenMembers recur active p items)) :
    ∀ k ∈ items, Succeeds (recur [] .root k) := by
  obtain ⟨pairs, hpairs, -⟩ := succeeds_bind.mp h
  exact fun k hk => succeeds_text.mp (succeeds_kept.mp ⟨pairs, hpairs⟩ k hk)

theorem succeeds_members {items : List Ref} (hmembers : ∀ k ∈ items, Succeeds (recur [] .root k))
    (hplaces : ∀ k ∈ items, ∀ q, Succeeds (recur active q k)) :
    Succeeds (writtenMembers recur active p items) := by
  obtain ⟨pairs, hpairs⟩ := succeeds_kept (k := id).mpr fun k hk => succeeds_text.mpr (hmembers k hk)
  refine succeeds_bind.mpr ⟨pairs, hpairs, succeeds_array.mpr (succeeds_items (fun c hc q => ?_) 0)⟩
  obtain ⟨y, hy, rfl⟩ := List.mem_map.mp hc
  exact forall_kept (P := fun c => Succeeds (recur active q c)) hpairs (fun k hk => hplaces k hk q) y
    (mem_byText.mp hy)

theorem of_succeeds_fields {fields : List (String × Ref)}
    (h : Succeeds (writtenFields recur active p fields)) : ∀ e ∈ fields, ∃ q, Succeeds (recur active q e.2) :=
  fun e he => of_succeeds_entries (succeeds_hash.mp h) (quote e.1.toList, e.2)
    (mem_byText.mpr (List.mem_map_of_mem he))

theorem succeeds_fields {fields : List (String × Ref)}
    (h : ∀ e ∈ fields, ∀ q, Succeeds (recur active q e.2)) :
    Succeeds (writtenFields recur active p fields) := by
  refine succeeds_hash.mpr (succeeds_entries fun y hy q => ?_)
  obtain ⟨e, he, rfl⟩ := List.mem_map.mp (mem_byText.mp hy)
  exact h e he q

end Parts

/-! ## What stands inside and what is written on its own, by shape -/

theorem inside_leaf (hleaf : isLeaf w r = true) (c : Ref) : ¬ w.Inside r c := by
  unfold isLeaf at hleaf
  rintro (h | ⟨h, -⟩ | h | ⟨h, -⟩)
  · simp_all
  · unfold items? at h
    cases hb : w.body r <;> simp_all
  · simp_all
  · unfold isObject at h
    cases hb : w.body r <;> simp_all

theorem inside_box {c c' : Ref} {t : Bool} (hb : w.body r = .box c t) : w.Inside r c' ↔ c' = c := by
  constructor
  · rintro (h | ⟨h, -⟩ | h | ⟨h, -⟩)
    · rw [hb] at h; cases h; rfl
    · simp only [items?, hb] at h; cases h
    · rw [hb] at h; cases h
    · simp only [isObject, hb] at h; cases h
  · rintro rfl
    exact .content hb

theorem inside_mapping {entries : List (Ref × Ref)} (hb : w.body r = .mapping entries) :
    w.Inside r c ↔ ∃ e ∈ entries, e.2 = c := by
  constructor
  · rintro (h | ⟨h, -⟩ | ⟨h, hm⟩ | ⟨h, -⟩)
    · rw [hb] at h; cases h
    · simp only [items?, hb] at h; cases h
    · rw [hb] at h; cases h; exact ⟨_, hm, rfl⟩
    · simp only [isObject, hb] at h; cases h
  · rintro ⟨e, he, rfl⟩
    exact .value (k := e.1) hb he

theorem inside_members {items : List Ref} (hb : w.body r = .members items) : ¬ w.Inside r c := by
  rintro (h | ⟨h, -⟩ | ⟨h, -⟩ | ⟨h, -⟩)
  · rw [hb] at h; cases h
  · simp only [items?, hb] at h; cases h
  · rw [hb] at h; cases h
  · simp only [isObject, hb] at h; cases h

theorem inside_items {items : List Ref} (hi : w.items? r = some items) : w.Inside r c ↔ c ∈ items := by
  constructor
  · rintro (h | ⟨h, hc⟩ | ⟨h, -⟩ | ⟨h, -⟩)
    · simp only [items?, h] at hi; cases hi
    · rw [hi] at h; cases h; exact hc
    · simp only [items?, h] at hi; cases hi
    · rw [items?_of_isObject h] at hi; cases hi
  · exact .item hi

theorem inside_fields (ho : w.isObject r = true) : w.Inside r c ↔ ∃ e ∈ w.storage r, e.2 = c := by
  constructor
  · rintro (h | ⟨h, -⟩ | ⟨h, -⟩ | ⟨-, he⟩)
    · simp only [isObject, h] at ho; cases ho
    · rw [items?_of_isObject ho] at h; cases h
    · simp only [isObject, h] at ho; cases ho
    · exact ⟨_, he, rfl⟩
  · rintro ⟨e, he, rfl⟩
    exact .field (n := e.1) ho he

theorem not_restarts (hmap : ∀ entries, w.body r ≠ .mapping entries)
    (hset : ∀ items, w.body r ≠ .members items) : ¬ Restarts w r k := by
  rintro (⟨h, -⟩ | ⟨h, -⟩)
  · exact hset _ h
  · exact hmap _ h

theorem restarts_leaf (hleaf : isLeaf w r = true) : ¬ Restarts w r k :=
  not_restarts (fun entries hb => by simp only [isLeaf, hb] at hleaf; cases hleaf)
    fun items hb => by simp only [isLeaf, hb] at hleaf; cases hleaf

theorem restarts_box {c : Ref} {t : Bool} (hb : w.body r = .box c t) : ¬ Restarts w r k :=
  not_restarts (by rw [hb]; simp) (by rw [hb]; simp)

theorem restarts_items {items : List Ref} (hi : w.items? r = some items) : ¬ Restarts w r k :=
  not_restarts (fun entries hb => by simp only [items?, hb] at hi; cases hi)
    fun items hb => by simp only [items?, hb] at hi; cases hi

theorem restarts_fields (ho : w.isObject r = true) : ¬ Restarts w r k :=
  not_restarts (fun entries hb => by simp only [isObject, hb] at ho; cases ho)
    fun items hb => by simp only [isObject, hb] at ho; cases ho

theorem keysSucceed_of_ne (h : ∀ entries, w.body r ≠ .mapping entries) : KeysSucceed w r :=
  fun entries hb => absurd hb (h entries)

/-! ## Depth -/

/-- What is written in full has its children written below it, and keys and members on their own. -/
theorem of_succeeds_write {depth : Nat} (hleaf : isLeaf w r = false) (hl : active.lookup r = none)
    (h : Succeeds (write w (depth + 1) active p r)) :
    (∀ c, w.Inside r c → ∃ q, Succeeds (write w depth ((r, p) :: active) q c)) ∧
      (∀ k, Restarts w r k → Succeeds (write w depth [] .root k)) ∧ KeysSucceed w r := by
  rw [write] at h
  cases shape w r with
  | leaf hleaf' => rw [hleaf] at hleaf'; cases hleaf'
  | box hb =>
      rw [writeStep_box hb hl, succeeds_map] at h
      refine ⟨fun c hc => ⟨.target p, (inside_box hb).mp hc ▸ h⟩, fun k hk => absurd hk (restarts_box hb), ?_⟩
      exact keysSucceed_of_ne fun entries hm => by rw [hb] at hm; cases hm
  | mapping hb =>
      rw [writeStep_mapping hb hl, succeeds_map] at h
      obtain ⟨hvalues, hkeys⟩ := of_succeeds_mapping h
      refine ⟨fun c hc => ?_, fun k hk => ?_, fun entries hm e he n hn => ?_⟩
      · obtain ⟨e, he, rfl⟩ := (inside_mapping hb).mp hc
        exact hvalues e he
      · rcases hk with ⟨hm, -⟩ | ⟨hm, he, hplain⟩
        · rw [hb] at hm; cases hm
        · rw [hb] at hm
          cases hm
          exact (succeeds_key_of_not_isPlain hplain).mp (hkeys _ he)
      · rw [hb] at hm
        cases hm
        exact (succeeds_key_number hn).mp (hkeys e he)
  | members hb =>
      rw [writeStep_members hb hl, succeeds_map] at h
      refine ⟨fun c hc => absurd hc (inside_members hb), fun k hk => ?_, ?_⟩
      · rcases hk with ⟨hm, hk⟩ | ⟨hm, -⟩
        · rw [hb] at hm
          cases hm
          exact of_succeeds_members h k hk
        · rw [hb] at hm; cases hm
      · exact keysSucceed_of_ne fun entries hm => by rw [hb] at hm; cases hm
  | items hi =>
      rw [writeStep_items hi hl, succeeds_map] at h
      refine ⟨fun c hc => of_succeeds_items (succeeds_array.mp h) c ((inside_items hi).mp hc),
        fun k hk => absurd hk (restarts_items hi), ?_⟩
      exact keysSucceed_of_ne fun entries hm => by simp only [items?, hm] at hi; cases hi
  | fields ho =>
      rw [writeStep_fields ho hl, succeeds_map] at h
      refine ⟨fun c hc => ?_, fun k hk => absurd hk (restarts_fields ho), ?_⟩
      · obtain ⟨e, he, rfl⟩ := (inside_fields ho).mp hc
        exact of_succeeds_fields h e he
      · exact keysSucceed_of_ne fun entries hm => by simp only [isObject, hm] at ho; cases ho

theorem answer_nothing (w : World) (r : Ref) : w.answer (atomTerm r .none) = .ok .undefined :=
  Settles.answer_eq (.of_steady fun n => .pure (w.limited n) Term.undefined)

theorem succeeds_key {depth : Nat}
    (hrestarts : w.isPlain k = false → Succeeds (write w (depth + 1) [] .root k))
    (hnumber : ∀ n, w.body k = .atom (.number n) → Succeeds (w.answer (Dispatch.ask.textOf k))) :
    Succeeds (writtenKey w (write w (depth + 1)) k) := by
  cases hp : w.isPlain k with
  | false => exact (succeeds_key_of_not_isPlain hp).mpr (hrestarts hp)
  | true =>
      unfold isPlain atom? at hp
      cases hb : w.body k with
      | atom a =>
          cases a with
          | none =>
              have hatom : w.atom? k = some .none := by simp only [atom?, hb]
              simp only [writtenKey, hatom]
              refine succeeds_text.mpr ⟨.undefined, ?_⟩
              rw [write, writeStep, hb]
              exact answer_nothing w k
          | number n => exact (succeeds_key_number hb).mpr (hnumber n hb)
          | _ => exact ⟨_, by simp only [writtenKey, atom?, hb]; rfl⟩
      | _ => simp [hb] at hp

/-- What has all its children written, below it and on their own, is written. -/
theorem succeeds_write {depth : Nat} (hleaf : isLeaf w r = false) (hl : active.lookup r = none)
    (hwrites : ∀ c, Writes w r c → ∀ q, Succeeds (write w (depth + 1) ((r, p) :: active) q c))
    (hrestarts : ∀ k, Restarts w r k → Succeeds (write w (depth + 1) [] .root k))
    (hkeys : KeysSucceed w r) : Succeeds (write w (depth + 2) active p r) := by
  rw [write]
  cases shape w r with
  | leaf hleaf' => rw [hleaf] at hleaf'; cases hleaf'
  | box hb =>
      rw [writeStep_box hb hl, succeeds_map]
      exact hwrites _ (.inl (.content hb)) _
  | mapping hb =>
      rw [writeStep_mapping hb hl, succeeds_map]
      refine succeeds_mapping (fun e he => hwrites e.2 (.inl (.value (k := e.1) hb he))) fun e he => ?_
      exact succeeds_key (fun hplain => hrestarts e.1 (.key (v := e.2) hb he hplain))
        fun n hn => hkeys _ hb e he n hn
  | members hb =>
      rw [writeStep_members hb hl, succeeds_map]
      exact succeeds_members (fun k hk => hrestarts k (.member hb hk)) fun k hk => hwrites k (.inr (.member hb hk))
  | items hi =>
      rw [writeStep_items hi hl, succeeds_map]
      exact succeeds_array.mpr (succeeds_items (fun c hc => hwrites c (.inl (.item hi hc))) 0)
  | fields ho =>
      rw [writeStep_fields ho hl, succeeds_map]
      exact succeeds_fields fun e he => hwrites e.2 (.inl (.field (n := e.1) ho he))

end Introspect.Perl
