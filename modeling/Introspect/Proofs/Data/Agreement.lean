import Introspect.Proofs.Data.Sorting
import Introspect.Proofs.Data.Texts
/-!
Data that agree. They differ at most in the classes of texts, which JSON does not write and YAML does not take, and
containers agree if what they contain does.
-/
namespace Introspect

namespace Data

/-- Data that differ at most in the classes of texts; either both have texts of derived classes or neither has. -/
structure Agrees (d d' : Data) : Prop where
  plain : d.plain = d'.plain
  exactness : d.Throughout IsExact ↔ d'.Throughout IsExact
  forms : d.Throughout HasForms
  forms' : d'.Throughout HasForms

variable {d d' : Data} {ds ds' : List Data} {es es' : List (Text × Data)} {k : Text}

theorem plain_of_isExact (h : d.Throughout IsExact) : d.plain = d := by
  induction d using recursion with
  | text t =>
      have ht : t.cls = .native .str := (throughout_iff_of_leaf rfl).mp h
      rw [plain, Text.plain, ← ht]
  | list items ih =>
      obtain ⟨-, hitems⟩ := throughout_list.mp h
      have hsame : items.map plain = items.map id := List.map_congr_left fun d hd => ih d hd (hitems d hd)
      rw [plain, plainItems_eq, hsame, List.map_id]
  | dict entries ih =>
      obtain ⟨hkeys, hentries⟩ := throughout_dict.mp h
      have hsame : entries.map (fun e => (Text.plain e.1.text, e.2.plain)) = entries.map id := by
        refine List.map_congr_left fun e he => ?_
        have hk : e.1.cls = .native .str := hkeys e he
        rw [ih e he (hentries e he), Text.plain, ← hk]
        rfl
      rw [plain, plainEntries_eq, hsame, List.map_id]
  | _ => rfl

/-- Entries with the same keys, whose values are related. -/
def Valued (R : Data → Data → Prop) (e e' : Text × Data) : Prop := e.1 = e'.1 ∧ R e.2 e'.2

section Entries

variable {R : Data → Data → Prop}

theorem forall₂_zip (keys : List Text) (h : List.Forall₂ R ds ds') :
    List.Forall₂ (Valued R) (keys.zip ds) (keys.zip ds') := by
  induction h generalizing keys with
  | nil =>
      rw [List.zip_nil_right]
      exact .nil
  | cons hd _ ih =>
      cases keys with
      | nil => exact .nil
      | cons k keys => exact .cons ⟨rfl, hd⟩ (ih keys)

theorem forall₂_put (h : List.Forall₂ (Valued R) es es') (hd : R d d') :
    List.Forall₂ (Valued R) (put k d es) (put k d' es') := by
  induction h with
  | nil => exact .cons ⟨rfl, hd⟩ .nil
  | @cons e e' _ _ he hrest ih =>
      obtain ⟨key, value⟩ := e
      obtain ⟨key', value'⟩ := e'
      obtain ⟨rfl, hvalue⟩ : key = key' ∧ R value value' := he
      rw [put, put]
      split
      · exact .cons ⟨rfl, hd⟩ hrest
      · exact .cons ⟨rfl, hvalue⟩ ih

theorem forall₂_ofEntries (h : List.Forall₂ (Valued R) es es') : List.Forall₂ (Valued R) (ofEntries es) (ofEntries es') := by
  suffices hfold : ∀ found found', List.Forall₂ (Valued R) found found' →
      List.Forall₂ (Valued R) (es.foldl (fun found e => put e.1 e.2 found) found)
        (es'.foldl (fun found e => put e.1 e.2 found) found') from hfold [] [] .nil
  induction h with
  | nil => exact fun _ _ hfound => hfound
  | @cons e e' _ _ he _ ih =>
      intro found found' hfound
      rw [List.foldl_cons, List.foldl_cons, ← he.1]
      exact ih _ _ (forall₂_put hfound he.2)

end Entries

namespace Agrees

theorem refl (h : d.Throughout HasForms) : d.Agrees d := ⟨rfl, .rfl, h, h⟩

theorem eq (h : d.Agrees d') (hexact : d.Throughout IsExact) : d' = d := by
  rw [← plain_of_isExact hexact, ← plain_of_isExact (h.exactness.mp hexact), h.plain]

/-- Lists of data that are the same up to their order. -/
theorem of_items (hplain : ds.map Data.plain = ds'.map Data.plain)
    (hexact : (∀ d ∈ ds, d.Throughout IsExact) ↔ ∀ d ∈ ds', d.Throughout IsExact)
    (hforms : ∀ d ∈ ds, d.Throughout HasForms) (hforms' : ∀ d ∈ ds', d.Throughout HasForms) :
    (Data.list ds).Agrees (.list ds') where
  plain := by rw [Data.plain, Data.plain, plainItems_eq, plainItems_eq, hplain]
  exactness := by
    rw [throughout_list, throughout_list, hexact]
    exact and_congr .rfl .rfl
  forms := throughout_list.mpr ⟨trivial, hforms⟩
  forms' := throughout_list.mpr ⟨trivial, hforms'⟩

variable (h : List.Forall₂ Agrees ds ds')
include h

theorem map_plain : ds.map Data.plain = ds'.map Data.plain := by
  induction h with
  | nil => rfl
  | cons hd _ ih => rw [List.map_cons, List.map_cons, hd.plain, ih]

theorem forall_exact : (∀ d ∈ ds, d.Throughout IsExact) ↔ ∀ d ∈ ds', d.Throughout IsExact :=
  forall_iff_of_forall₂ (h.imp fun _ _ h => h.exactness)

theorem forall_forms : ∀ d ∈ ds, d.Throughout HasForms :=
  ((List.forall₂_and_left _ _).mp (h.imp fun _ _ h => ⟨h.forms, h⟩)).1

theorem forall_forms' : ∀ d ∈ ds', d.Throughout HasForms :=
  ((List.forall₂_and_left _ _).mp (h.flip.imp fun _ _ h => ⟨h.forms', h⟩)).1

theorem list : (Data.list ds).Agrees (.list ds') :=
  .of_items (map_plain h) (forall_exact h) (forall_forms h) (forall_forms' h)

omit h

theorem dict (h : List.Forall₂ (Valued Agrees) es es') : (Data.dict es).Agrees (.dict es') where
  plain := by
    have hplain : es.map (fun e => (Text.plain e.1.text, e.2.plain)) = es'.map fun e => (Text.plain e.1.text, e.2.plain) := by
      induction h with
      | nil => rfl
      | cons he _ ih => rw [List.map_cons, List.map_cons, ih, he.1, he.2.plain]
    rw [Data.plain, Data.plain, plainEntries_eq, plainEntries_eq, hplain]
  exactness := by
    rw [throughout_dict, throughout_dict]
    refine and_congr (forall_iff_of_forall₂ (h.imp fun _ _ he => ?_))
      (forall_iff_of_forall₂ (h.imp fun _ _ he => he.2.exactness))
    rw [he.1]
  forms := throughout_dict.mpr ⟨trivial, ((List.forall₂_and_left _ _).mp (h.imp fun _ _ he => ⟨he.2.forms, he⟩)).1⟩
  forms' := throughout_dict.mpr ⟨trivial, ((List.forall₂_and_left _ _).mp (h.flip.imp fun _ _ he => ⟨he.2.forms', he⟩)).1⟩

end Agrees

end Data

namespace Json

variable {indent : Option Int} {level : Nat} {d : Data} {items : List Data} {entries : List (Data.Text × Data)}

theorem itemChars_plain (h : ∀ d ∈ items, chars indent level d.plain = chars indent level d) :
    itemChars indent level (Data.plainItems items) = itemChars indent level items := by
  induction items with
  | nil => rfl
  | cons d rest ih =>
      obtain ⟨hd, hrest⟩ := List.forall_mem_cons.mp h
      rw [Data.plainItems, itemChars, itemChars, hd, ih hrest]

theorem entryChars_plain (h : ∀ e ∈ entries, chars indent level e.2.plain = chars indent level e.2) :
    entryChars indent level (Data.plainEntries entries) = entryChars indent level entries := by
  induction entries with
  | nil => rfl
  | cons e rest ih =>
      obtain ⟨k, d⟩ := e
      obtain ⟨hd, hrest⟩ := List.forall_mem_cons.mp h
      rw [Data.plainEntries, entryChars, entryChars, hd, ih hrest, Data.Text.plain]

/-- The class of a text is not written. -/
theorem chars_plain : chars indent level d.plain = chars indent level d := by
  induction d using Data.recursion generalizing level with
  | list items ih =>
      cases items with
      | nil => rfl
      | cons d rest =>
          obtain ⟨hd, hrest⟩ := List.forall_mem_cons.mp ih
          rw [Data.plain, Data.plainItems, chars, chars, hd, itemChars_plain fun d hd => hrest d hd]
  | dict entries ih =>
      cases entries with
      | nil => rfl
      | cons e rest =>
          obtain ⟨k, d⟩ := e
          obtain ⟨hd, hrest⟩ := List.forall_mem_cons.mp ih
          rw [Data.plain, Data.plainEntries, chars, chars, hd, entryChars_plain fun e he => hrest e he, Data.Text.plain]
  | _ => rfl

theorem render_plain : render indent d.plain = render indent d := by rw [render, render, chars_plain]

end Json

end Introspect
