import Introspect.Proofs.Data.Reprs
/-!
Members in the order of their displays. As displays show the data, members in another order are put into the same
one, up to the classes of texts.
-/
namespace Introspect

namespace Data

/-- The class of a text does not show. -/
theorem display_plain (d : Data) : d.plain.display = d.display := by
  induction d using Data.recursion with
  | list items ih =>
      have hitems : items.mapM (display ∘ plain) = items.mapM display := mapM_congr fun d hd => ih d hd
      rw [plain, display, display, plainItems_eq, Lower.displayItems_eq, Lower.displayItems_eq, List.mapM_map, hitems]
  | dict entries ih =>
      rw [plain, display, display, plainEntries_eq, displayEntries_eq, displayEntries_eq, List.mapM_map]
      congr 1
      refine mapM_congr fun e he => ?_
      dsimp only [Function.comp]
      rw [ih e he, Text.plain]
  | _ => rfl

end Data

namespace Lower

variable {ds ds' es : List Data} {d d' : Data}

/-- The display of data that have one. -/
def displayed (d : Data) : String :=
  match d.display with
  | .ok s => s
  | .error _ => ""

theorem display_eq_displayed (h : Succeeds d.display) : d.display = .ok (displayed d) := by
  obtain ⟨s, hs⟩ := h
  rw [displayed, hs]

def labelled? (d : Data) : Except Fault (String × Data) := do return (← d.display, d)

/-- The second before the first, or in its place. -/
def comesFirst (a b : String × Data) : Bool := a.1 ≤ b.1

theorem comesFirst_trans (a b c : String × Data) (hab : comesFirst a b = true) (hbc : comesFirst b c = true) :
    comesFirst a c = true :=
  decide_eq_true (String.le_trans (of_decide_eq_true hab) (of_decide_eq_true hbc))

theorem comesFirst_total (a b : String × Data) : (comesFirst a b || comesFirst b a) = true := by
  rw [Bool.or_eq_true, comesFirst, comesFirst, decide_eq_true_eq, decide_eq_true_eq]
  exact String.le_total a.1 b.1

def sortDisplayed (ds : List Data) : List (String × Data) := (ds.map fun d => (displayed d, d)).mergeSort comesFirst

theorem byDisplay_ok_iff :
    byDisplay ds = .ok ds' ↔ (∀ d ∈ ds, Succeeds d.display) ∧ ds' = (sortDisplayed ds).map (·.2) := by
  have hshown (h : ∀ d ∈ ds, Succeeds d.display) : ds.mapM labelled? = .ok (ds.map fun d => (displayed d, d)) :=
    mapM_ok_map fun d hd => by rw [labelled?, display_eq_displayed (h d hd)]; rfl
  constructor
  · intro h
    obtain ⟨shown, hall, h⟩ := bind_ok_iff.mp h
    have hsucceeds : ∀ d ∈ ds, Succeeds d.display := (succeeds_kept (k := id)).mp ⟨shown, hall⟩
    have hsame := (hshown hsucceeds).symm.trans hall
    cases hsame
    cases h
    exact ⟨hsucceeds, rfl⟩
  · rintro ⟨h, rfl⟩
    exact bind_ok_iff.mpr ⟨_, hshown h, rfl⟩

/-- Members that stand in the order of their displays stay there. -/
theorem byDisplay_of_pairwise (shown : List String) (h : ds.mapM Data.display = .ok shown)
    (hsorted : shown.Pairwise (· ≤ ·)) : byDisplay ds = .ok ds := by
  have hds : ∀ d ∈ ds, Succeeds d.display := succeeds_mapM.mp ⟨shown, h⟩
  have hshown : shown = ds.map displayed := mapM_eq_map h fun d hd s hs => by rw [displayed, hs]
  have hpairwise : (ds.map fun d => (displayed d, d)).Pairwise fun a b => comesFirst a b = true := by
    rw [hshown, List.pairwise_map] at hsorted
    exact List.pairwise_map.mpr (hsorted.imp fun hle => decide_eq_true hle)
  refine byDisplay_ok_iff.mpr ⟨hds, ?_⟩
  rw [sortDisplayed, List.mergeSort_of_pairwise hpairwise, List.map_map]
  exact (List.map_id ds).symm

theorem perm_of_byDisplay (h : byDisplay ds = .ok ds') : ds'.Perm ds := by
  obtain ⟨-, rfl⟩ := byDisplay_ok_iff.mp h
  have hperm := (List.mergeSort_perm (ds.map fun d => (displayed d, d)) comesFirst).map (·.2)
  rwa [List.map_map, List.map_id''] at hperm
  exact fun d => rfl

theorem displayed_plain (d : Data) : displayed d.plain = displayed d := by
  rw [displayed, displayed, Data.display_plain]

/-- Without the classes of texts, members are sorted by their displays all the same. -/
theorem map_sortDisplayed (ds : List Data) : (sortDisplayed ds).map (fun p => (p.1, p.2.plain)) =
    sortDisplayed (ds.map Data.plain) := by
  have hmap := List.map_mergeSort (r := comesFirst) (s := comesFirst) (f := fun p : String × Data => (p.1, p.2.plain))
    (l := ds.map fun d => (displayed d, d)) fun _ _ _ _ => rfl
  rw [sortDisplayed, hmap, sortDisplayed, List.map_map, List.map_map]
  refine congrArg (List.mergeSort · comesFirst) (List.map_congr_left fun d _ => ?_)
  exact Prod.ext (displayed_plain d).symm rfl

/-- Sorted by what shows them, data stand in one order. -/
theorem sortDisplayed_perm (hperm : ds.Perm es) (hties : ∀ d ∈ ds, ∀ d' ∈ es, displayed d = displayed d' → d = d') :
    sortDisplayed ds = sortDisplayed es := by
  have hsorted (ds : List Data) : (sortDisplayed ds).Pairwise fun a b => comesFirst a b = true :=
    List.pairwise_mergeSort comesFirst_trans comesFirst_total _
  have hsame : (sortDisplayed ds).Perm (sortDisplayed es) :=
    (List.mergeSort_perm _ _).trans ((hperm.map _).trans (List.mergeSort_perm _ _).symm)
  refine List.Perm.eq_of_pairwise (fun a b ha hb hab hba => ?_) (hsorted ds) (hsorted es) hsame
  obtain ⟨d, hd, rfl⟩ := List.mem_map.mp (List.mem_mergeSort.mp ha)
  obtain ⟨d', hd', rfl⟩ := List.mem_map.mp (List.mem_mergeSort.mp hb)
  have htext : displayed d = displayed d' := String.le_antisymm (of_decide_eq_true hab) (of_decide_eq_true hba)
  rw [hties d hd d' hd' htext]

/-- Members in any order are put into one order, up to the classes of texts. -/
theorem byDisplay_perm (hforms : ∀ d ∈ ds, d.Throughout Data.HasForms) (hforms' : ∀ d ∈ es, d.Throughout Data.HasForms)
    (hperm : (ds.map Data.plain).Perm (es.map Data.plain)) (h : byDisplay ds = .ok ds') :
    ∃ es', byDisplay es = .ok es' ∧ ds'.map Data.plain = es'.map Data.plain := by
  obtain ⟨hds, rfl⟩ := byDisplay_ok_iff.mp h
  have hes : ∀ e ∈ es, Succeeds e.display := fun e he => by
    obtain ⟨d, hd, heq⟩ := List.mem_map.mp (hperm.symm.mem_iff.mp (List.mem_map_of_mem he))
    rw [← Data.display_plain, ← heq, Data.display_plain]
    exact hds d hd
  have hties : ∀ x ∈ ds.map Data.plain, ∀ y ∈ es.map Data.plain, displayed x = displayed y → x = y := by
    intro x hx y hy hxy
    obtain ⟨d, hd, rfl⟩ := List.mem_map.mp hx
    obtain ⟨e, he, rfl⟩ := List.mem_map.mp hy
    rw [displayed_plain, displayed_plain] at hxy
    have hdisplay := display_eq_displayed (hds d hd)
    rw [hxy] at hdisplay
    exact Data.plain_eq_of_display (hforms d hd) (hforms' e he) hdisplay (display_eq_displayed (hes e he))
  have hmap (ds : List Data) : ((sortDisplayed ds).map (·.2)).map Data.plain = (sortDisplayed (ds.map Data.plain)).map (·.2) := by
    rw [← map_sortDisplayed, List.map_map, List.map_map]
    rfl
  exact ⟨_, byDisplay_ok_iff.mpr ⟨hes, rfl⟩, by rw [hmap, hmap, sortDisplayed_perm hperm hties]⟩

end Lower

end Introspect
