import Mathlib.Data.List.Perm.Basic
import Introspect.Fault
/-! Computations that answer or fail, one after the other and over the elements of lists. -/
namespace Introspect

variable {α β γ κ : Type} {x : Except Fault α} {l : List α} {f g : α → Except Fault β} {ys : List β}

theorem bind_ok_iff {b : β} : x >>= f = .ok b ↔ ∃ a, x = .ok a ∧ f a = .ok b := by
  cases x with
  | error fault => exact iff_of_false (fun h => by cases h) fun ⟨_, h, _⟩ => by cases h
  | ok a => exact ⟨fun h => ⟨a, rfl, h⟩, fun ⟨_, h, hf⟩ => by cases h; exact hf⟩

theorem map_ok_iff {h : α → β} {b : β} : h <$> x = .ok b ↔ ∃ a, x = .ok a ∧ h a = b := by
  cases x with
  | error fault => exact iff_of_false (fun h => by cases h) fun ⟨_, h, _⟩ => by cases h
  | ok a => exact ⟨fun h => by cases h; exact ⟨a, rfl, rfl⟩, fun ⟨_, h, hb⟩ => by cases h; rw [← hb]; rfl⟩

theorem mapM_ok_iff : l.mapM f = .ok ys ↔ List.Forall₂ (fun x y => f x = .ok y) l ys := by
  induction l generalizing ys with
  | nil => cases ys <;> simp [pure, Except.pure]
  | cons x rest ih =>
      rw [List.mapM_cons, bind_ok_iff]
      constructor
      · rintro ⟨y, hy, h⟩
        obtain ⟨found, hrest, h⟩ := bind_ok_iff.mp h
        cases h
        exact .cons hy (ih.mp hrest)
      · intro h
        cases h with
        | cons hy hrest => exact ⟨_, hy, bind_ok_iff.mpr ⟨_, ih.mpr hrest, rfl⟩⟩

/-- What is made of a list element by element holds for each of its elements. -/
theorem forall_of_mapM {P : β → Prop} (h : l.mapM f = .ok ys) (hP : ∀ x ∈ l, ∀ y, f x = .ok y → P y) :
    ∀ y ∈ ys, P y := by
  have hall := mapM_ok_iff.mp h
  clear h
  induction hall with
  | nil => exact fun y hy => absurd hy List.not_mem_nil
  | cons hx _ ih =>
      intro y hy
      rcases List.mem_cons.mp hy with rfl | hy
      · exact hP _ List.mem_cons_self _ hx
      · exact ih (fun x hx => hP x (List.mem_cons_of_mem _ hx)) y hy

/-- Each element is related to what is made of it. -/
theorem forall₂_mapM {R : α → β → Prop} (h : l.mapM f = .ok ys) (hR : ∀ x ∈ l, ∀ y, f x = .ok y → R x y) :
    List.Forall₂ R l ys := by
  refine ((List.forall₂_and_left _ _).mpr ⟨fun _ => id, mapM_ok_iff.mp h⟩).imp ?_
  exact fun x y ⟨hx, hy⟩ => hR x hx y hy

theorem exists_of_forall₂ {R : α → β → Prop} {x : α} (h : List.Forall₂ R l ys) (hx : x ∈ l) : ∃ y ∈ ys, R x y := by
  induction h with
  | nil => exact absurd hx List.not_mem_nil
  | cons hy _ ih =>
      rcases List.mem_cons.mp hx with rfl | hx
      · exact ⟨_, List.mem_cons_self, hy⟩
      · obtain ⟨y, hmem, hy⟩ := ih hx
        exact ⟨y, List.mem_cons_of_mem _ hmem, hy⟩

theorem forall_iff_of_forall₂ {P : α → Prop} {Q : β → Prop} (h : List.Forall₂ (fun x y => P x ↔ Q y) l ys) :
    (∀ x ∈ l, P x) ↔ ∀ y ∈ ys, Q y := by
  induction h with
  | nil => exact iff_of_true (fun x hx => absurd hx List.not_mem_nil) fun y hy => absurd hy List.not_mem_nil
  | cons hxy _ ih => rw [List.forall_mem_cons, List.forall_mem_cons, hxy, ih]

theorem exists_of_mapM {x : α} (h : l.mapM f = .ok ys) (hx : x ∈ l) : ∃ y ∈ ys, f x = .ok y :=
  exists_of_forall₂ (mapM_ok_iff.mp h) hx

/-- What is made of a list in another order stands in another order. -/
theorem mapM_perm {l' : List α} (hp : l.Perm l') (h : l.mapM f = .ok ys) : ∃ ys', l'.mapM f = .ok ys' ∧ ys.Perm ys' := by
  obtain ⟨ys', hys', hperm⟩ := List.perm_comp_forall₂ hp.symm (mapM_ok_iff.mp h)
  exact ⟨ys', mapM_ok_iff.mpr hys', hperm.symm⟩

theorem mapM_congr (h : ∀ x ∈ l, f x = g x) : l.mapM f = l.mapM g := by
  induction l with
  | nil => rfl
  | cons x rest ih =>
      rw [List.mapM_cons, List.mapM_cons, h x List.mem_cons_self,
        ih fun x hx => h x (List.mem_cons_of_mem _ hx)]

theorem mapM_ok_map {h : α → β} (hf : ∀ x ∈ l, f x = .ok (h x)) : l.mapM f = .ok (l.map h) := by
  rw [mapM_ok_iff, List.forall₂_map_right_iff, List.forall₂_same]
  exact hf

theorem mapM_eq_map {g : α → β} (h : l.mapM f = .ok ys) (hg : ∀ x ∈ l, ∀ y, f x = .ok y → y = g x) :
    ys = l.map g := by
  induction l generalizing ys with
  | nil => cases h; rfl
  | cons x rest ih =>
      rw [List.mapM_cons] at h
      obtain ⟨y, hy, h⟩ := bind_ok_iff.mp h
      obtain ⟨found, hfound, h⟩ := bind_ok_iff.mp h
      cases h
      rw [List.map_cons, hg x List.mem_cons_self y hy,
        ih hfound fun x' hx' => hg x' (List.mem_cons_of_mem _ hx')]

theorem forall₂_of_mapM {l' : List γ} {g : γ → Except Fault β} {R : α → γ → Prop} (h : l.mapM f = .ok ys)
    (h' : l'.mapM g = .ok ys) (hR : ∀ a ∈ l, ∀ c ∈ l', ∀ b, f a = .ok b → g c = .ok b → R a c) :
    List.Forall₂ R l l' := by
  have hl := mapM_ok_iff.mp h
  have hl' := mapM_ok_iff.mp h'
  clear h h'
  induction hl generalizing l' with
  | nil => cases hl'; exact .nil
  | cons hb _ ih =>
      cases hl' with
      | cons hb' hrest =>
          refine .cons (hR _ List.mem_cons_self _ List.mem_cons_self _ hb hb') (ih (fun a ha c hc => ?_) hrest)
          exact hR a (List.mem_cons_of_mem _ ha) c (List.mem_cons_of_mem _ hc)

theorem forall_kept {k : α → γ} {pairs : List (β × γ)} {P : γ → Prop}
    (h : l.mapM (fun a => do return (← f a, k a)) = .ok pairs) (hP : ∀ a ∈ l, P (k a)) :
    ∀ y ∈ pairs, P y.2 :=
  forall_of_mapM h fun a ha y hy => by
    obtain ⟨b, -, hb⟩ := bind_ok_iff.mp hy
    cases hb
    exact hP a ha

/-- Elements that keep their labels are made by themselves and labelled afterwards. -/
theorem mapM_labelled {key : α → κ} {k : α → γ} {h : γ → Except Fault β} :
    (l.mapM fun a => do return (key a, ← h (k a))) = do return (l.map key).zip (← (l.map k).mapM h) := by
  induction l with
  | nil => rfl
  | cons a rest ih =>
      simp only [List.map_cons, List.mapM_cons, ih, bind_assoc, pure_bind, List.zip_cons_cons]

/-! ## Success -/

def Succeeds (x : Except Fault α) : Prop := ∃ a, x = .ok a

theorem succeeds_bind : Succeeds (x >>= f) ↔ ∃ a, x = .ok a ∧ Succeeds (f a) := by
  cases x with
  | error fault => exact iff_of_false (fun ⟨_, h⟩ => by cases h) fun ⟨_, h, _⟩ => by cases h
  | ok a => exact ⟨fun h => ⟨a, rfl, h⟩, fun ⟨_, h, hf⟩ => by cases h; exact hf⟩

/-- Where nothing after it can fail. -/
theorem succeeds_bind_of (h : ∀ a, Succeeds (f a)) : Succeeds (x >>= f) ↔ Succeeds x :=
  succeeds_bind.trans ⟨fun ⟨a, ha, _⟩ => ⟨a, ha⟩, fun ⟨a, ha⟩ => ⟨a, ha, h a⟩⟩

theorem succeeds_map {h : α → β} : Succeeds (h <$> x) ↔ Succeeds x := by
  simp only [Succeeds, map_ok_iff, exists_comm (α := β), exists_and_left, exists_eq', and_true]

theorem succeeds_mapM : Succeeds (l.mapM f) ↔ ∀ a ∈ l, Succeeds (f a) := by
  induction l with
  | nil => exact iff_of_true ⟨[], rfl⟩ fun a ha => absurd ha List.not_mem_nil
  | cons a rest ih =>
      rw [List.mapM_cons, List.forall_mem_cons, ← ih, succeeds_bind]
      constructor
      · rintro ⟨b, hb, hrest⟩
        obtain ⟨found, hfound, -⟩ := succeeds_bind.mp hrest
        exact ⟨⟨b, hb⟩, found, hfound⟩
      · rintro ⟨⟨b, hb⟩, found, hfound⟩
        exact ⟨b, hb, succeeds_bind.mpr ⟨found, hfound, _, rfl⟩⟩

theorem succeeds_kept {k : α → γ} :
    Succeeds (l.mapM fun a => do return (← f a, k a)) ↔ ∀ a ∈ l, Succeeds (f a) := by
  rw [succeeds_mapM]
  refine forall₂_congr fun a _ => succeeds_bind.trans ⟨?_, ?_⟩
  · rintro ⟨b, hb, -⟩
    exact ⟨b, hb⟩
  · rintro ⟨b, hb⟩
    exact ⟨b, hb, _, rfl⟩

/-! ## The first failure -/

variable {fault : Fault}

theorem exists_of_mapM_error (h : l.mapM f = .error fault) : ∃ a ∈ l, f a = .error fault := by
  induction l with
  | nil => cases h
  | cons a rest ih =>
      rw [List.mapM_cons] at h
      cases ha : f a with
      | error fault' =>
          rw [ha] at h
          cases h
          exact ⟨a, List.mem_cons_self, ha⟩
      | ok b =>
          rw [ha] at h
          cases hrest : rest.mapM f with
          | error fault' =>
              obtain ⟨c, hc, hfault⟩ := ih (by rw [hrest] at h ⊢; exact h)
              exact ⟨c, List.mem_cons_of_mem _ hc, hfault⟩
          | ok found =>
              rw [hrest] at h
              cases h

/-- Where nothing before it fails for another reason, what an element fails with is what the list does. -/
theorem mapM_error_at {before later : List α} {a : α}
    (hbefore : ∀ b ∈ before, Succeeds (f b) ∨ f b = .error fault) (ha : f a = .error fault) :
    (before ++ a :: later).mapM f = .error fault := by
  induction before with
  | nil =>
      rw [List.nil_append, List.mapM_cons, ha]
      rfl
  | cons b rest ih =>
      obtain ⟨hb, hrest⟩ := List.forall_mem_cons.mp hbefore
      rw [List.cons_append, List.mapM_cons, ih hrest]
      rcases hb with ⟨found, hb⟩ | hb <;> rw [hb] <;> rfl

theorem succeeds_mapM_or (h : ∀ a ∈ l, Succeeds (f a) ∨ f a = .error fault) :
    Succeeds (l.mapM f) ∨ l.mapM f = .error fault := by
  by_cases hall : ∀ a ∈ l, Succeeds (f a)
  · exact .inl (succeeds_mapM.mpr hall)
  · push Not at hall
    obtain ⟨a, ha, hnot⟩ := hall
    obtain ⟨before, later, rfl⟩ := List.append_of_mem ha
    have hfault := (h a ha).resolve_left hnot
    exact .inr (mapM_error_at (fun b hb => h b (List.mem_append_left _ hb)) hfault)

end Introspect
