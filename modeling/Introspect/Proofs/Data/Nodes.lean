import Introspect.Proofs.Data.Display
import Introspect.Proofs.Number.Rounding
/-!
The nodes of plain data, and the entries of a mapping under distinct keys. Whatever holds of leaves and
passes from what is contained to what contains it holds of everything that lowering ends with.
-/
namespace Introspect.Data

/-- The data of sequences and mappings come after the data that they contain. -/
@[elab_as_elim]
theorem recursion {P : Data → Prop} (null : P .null) (bool : ∀ b, P (.bool b)) (int : ∀ i, P (.int i))
    (float : ∀ x, P (.float x)) (text : ∀ t, P (.text t)) (list : ∀ items, (∀ d ∈ items, P d) → P (.list items))
    (dict : ∀ entries, (∀ e ∈ entries, P e.2) → P (.dict entries)) (d : Data) : P d :=
  @Data.rec P (fun items => ∀ d ∈ items, P d) (fun entries => ∀ e ∈ entries, P e.2) (fun e => P e.2) null bool int float text list dict
    (fun _ h => absurd h List.not_mem_nil) (fun _ _ hd hrest => List.forall_mem_cons.mpr ⟨hd, hrest⟩)
    (fun _ h => absurd h List.not_mem_nil) (fun _ _ he hrest => List.forall_mem_cons.mpr ⟨he, hrest⟩)
    (fun _ _ h => h) d

mutual

/-- The data itself and all data inside it. -/
def nodes : Data → List Data
  | .list items => .list items :: itemNodes items
  | .dict entries => .dict entries :: entryNodes entries
  | d => [d]

def itemNodes : List Data → List Data
  | [] => []
  | d :: rest => nodes d ++ itemNodes rest

def entryNodes : List (Text × Data) → List Data
  | [] => []
  | (_, d) :: rest => nodes d ++ entryNodes rest

end

variable {d x : Data} {items : List Data} {entries : List (Text × Data)}

theorem mem_itemNodes : x ∈ itemNodes items ↔ ∃ d ∈ items, x ∈ d.nodes := by
  induction items with
  | nil => simp [itemNodes]
  | cons d rest ih => simp [itemNodes, ih]

theorem mem_entryNodes : x ∈ entryNodes entries ↔ ∃ e ∈ entries, x ∈ e.2.nodes := by
  induction entries with
  | nil => simp [entryNodes]
  | cons e rest ih =>
      obtain ⟨k, d⟩ := e
      simp [entryNodes, ih]

theorem mem_nodes_list : x ∈ (Data.list items).nodes ↔ x = .list items ∨ ∃ d ∈ items, x ∈ d.nodes := by
  rw [nodes, List.mem_cons, mem_itemNodes]

theorem mem_nodes_dict : x ∈ (Data.dict entries).nodes ↔ x = .dict entries ∨ ∃ e ∈ entries, x ∈ e.2.nodes := by
  rw [nodes, List.mem_cons, mem_entryNodes]

theorem self_mem_nodes (d : Data) : d ∈ d.nodes := by
  cases d <;> simp [nodes]

/-- A property of every node. -/
def Throughout (P : Data → Prop) (d : Data) : Prop := ∀ x ∈ d.nodes, P x

instance {P : Data → Prop} [DecidablePred P] (d : Data) : Decidable (d.Throughout P) :=
  inferInstanceAs (Decidable (∀ x ∈ d.nodes, P x))

def isLeaf : Data → Bool
  | .list _ | .dict _ => false
  | _ => true

theorem throughout_of_leaf {P : Data → Prop} (h : d.isLeaf = true) (hd : P d) : d.Throughout P := fun x hx => by
  have hself : x = d := by cases d <;> simp_all [isLeaf, nodes]
  exact hself ▸ hd

theorem throughout_list {P : Data → Prop} :
    (Data.list items).Throughout P ↔ P (.list items) ∧ ∀ d ∈ items, d.Throughout P := by
  simp only [Throughout, mem_nodes_list]
  constructor
  · exact fun h => ⟨h _ (.inl rfl), fun d hd x hx => h x (.inr ⟨d, hd, hx⟩)⟩
  · rintro ⟨hself, hitems⟩ x (rfl | ⟨d, hd, hx⟩)
    · exact hself
    · exact hitems d hd x hx

theorem throughout_dict {P : Data → Prop} :
    (Data.dict entries).Throughout P ↔ P (.dict entries) ∧ ∀ e ∈ entries, e.2.Throughout P := by
  simp only [Throughout, mem_nodes_dict]
  constructor
  · exact fun h => ⟨h _ (.inl rfl), fun e he x hx => h x (.inr ⟨e, he, hx⟩)⟩
  · rintro ⟨hself, hentries⟩ x (rfl | ⟨e, he, hx⟩)
    · exact hself
    · exact hentries e he x hx

/-- Floating-point numbers are in their one form. -/
def HasForms : Data → Prop
  | .float x => x.IsNormal
  | _ => True

instance : DecidablePred HasForms
  | .float x => inferInstanceAs (Decidable x.IsNormal)
  | .null | .bool _ | .int _ | .text _ | .list _ | .dict _ => .isTrue trivial

/-! ## Classes of texts -/

mutual

/-- The data with all texts of the class of texts. -/
def plain : Data → Data
  | .text t => .text (.plain t.text)
  | .list items => .list (plainItems items)
  | .dict entries => .dict (plainEntries entries)
  | d => d

def plainItems : List Data → List Data
  | [] => []
  | d :: rest => d.plain :: plainItems rest

def plainEntries : List (Text × Data) → List (Text × Data)
  | [] => []
  | (k, d) :: rest => (.plain k.text, d.plain) :: plainEntries rest

end

theorem plainItems_eq (items : List Data) : plainItems items = items.map plain := by
  induction items with
  | nil => rfl
  | cons d rest ih => rw [plainItems, ih, List.map_cons]

theorem plainEntries_eq (entries : List (Text × Data)) :
    plainEntries entries = entries.map fun e => (.plain e.1.text, e.2.plain) := by
  induction entries with
  | nil => rfl
  | cons e rest ih => rw [plainEntries, ih, List.map_cons]

/-! ## Entries -/

variable {key : Text} {value : Data}

theorem ofEntries_append_singleton (entries : List (Text × Data)) (e : Text × Data) :
    ofEntries (entries ++ [e]) = put e.1 e.2 (ofEntries entries) := by
  rw [ofEntries, List.foldl_append]
  rfl

theorem put_of_notMem (h : key.text ∉ entries.map (·.1.text)) : put key value entries = entries ++ [(key, value)] := by
  induction entries with
  | nil => rfl
  | cons e rest ih =>
      rw [List.map_cons, List.mem_cons, not_or] at h
      rw [put, if_neg (Ne.symm h.1), ih h.2, List.cons_append]

/-- A value that replaces another one leaves the keys as they are. -/
theorem map_put_of_mem (h : key.text ∈ entries.map (·.1.text)) : (put key value entries).map (·.1) = entries.map (·.1) := by
  induction entries with
  | nil => cases h
  | cons e rest ih =>
      rw [put]
      split
      · rfl
      · rename_i hne
        rw [List.map_cons, List.mem_cons] at h
        rw [List.map_cons, List.map_cons, ih (h.resolve_left (Ne.symm hne))]

theorem nodup_ofEntries (entries : List (Text × Data)) : ((ofEntries entries).map (·.1.text)).Nodup := by
  induction entries using List.reverseRecOn with
  | nil => exact .nil
  | append_singleton entries e ih =>
      rw [ofEntries_append_singleton]
      by_cases h : e.1.text ∈ (ofEntries entries).map (·.1.text)
      · have hkeys := congrArg (List.map Text.text) (@map_put_of_mem _ _ e.2 h)
        rw [List.map_map, List.map_map] at hkeys
        exact hkeys ▸ ih
      · rw [put_of_notMem h, List.map_append]
        exact ih.append (List.nodup_singleton _) (by simpa using h)

/-- Entries under distinct keys stay as they are. -/
theorem ofEntries_of_nodup (h : (entries.map (·.1.text)).Nodup) : ofEntries entries = entries := by
  induction entries using List.reverseRecOn with
  | nil => rfl
  | append_singleton entries e ih =>
      rw [List.map_append, List.nodup_append] at h
      rw [ofEntries_append_singleton, ih h.1, put_of_notMem fun hmem => h.2.2 _ hmem _ (List.mem_singleton_self _) rfl]

theorem forall_key_ofEntries {P : Text → Prop} (h : ∀ e ∈ entries, P e.1) : ∀ e ∈ ofEntries entries, P e.1 := by
  rw [← List.forall_mem_map (P := P)]
  rw [← List.forall_mem_map (P := P)] at h
  induction entries using List.reverseRecOn with
  | nil => exact h
  | append_singleton entries e ih =>
      rw [List.map_append, List.forall_mem_append] at h
      rw [ofEntries_append_singleton]
      by_cases hmem : e.1.text ∈ (ofEntries entries).map (·.1.text)
      · rw [map_put_of_mem hmem]
        exact ih h.1
      · rw [put_of_notMem hmem, List.map_append, List.forall_mem_append]
        exact ⟨ih h.1, h.2⟩

/-- Every mapping has distinct keys. -/
def HasDistinctKeys : Data → Prop
  | .dict entries => (entries.map (·.1.text)).Nodup
  | _ => True

end Introspect.Data
