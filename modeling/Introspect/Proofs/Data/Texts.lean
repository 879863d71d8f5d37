import Introspect.Handle
import Introspect.Proofs.Data.Cycles
import Introspect.Proofs.Data.Runs
/-!
The classes of the texts in data. What lowering ends with is written as JSON wherever its integers have texts; as
YAML only if besides no text is of a derived class, whatever writer is asked, as long as it takes the host's own
types and no others. Such texts are answers of conversions, which lowering takes for keys and for numbers as they are.
-/
namespace Introspect

namespace Data

/-- Every text in a node, as a key or a value, has the property. -/
def EveryText (P : Text → Prop) : Data → Prop
  | .text t => P t
  | .dict entries => ∀ e ∈ entries, P e.1
  | _ => True

/-- No text is of a derived class. -/
def IsExact : Data → Prop := EveryText fun t => t.cls = .native .str

instance : DecidablePred IsExact
  | .text t => inferInstanceAs (Decidable (t.cls = .native .str))
  | .dict entries => inferInstanceAs (Decidable (∀ e ∈ entries, e.1.cls = .native .str))
  | .null | .bool _ | .int _ | .float _ | .list _ => .isTrue trivial

/-- An integer has a text. -/
def HasNumerals : Data → Prop
  | .int i => Atom.isWritable (.int i) = true
  | _ => True

instance : DecidablePred HasNumerals
  | .int i => inferInstanceAs (Decidable (Atom.isWritable (.int i) = true))
  | .null | .bool _ | .float _ | .text _ | .list _ | .dict _ => .isTrue trivial

variable {P Q : Data → Prop} {d : Data}

theorem throughout_and : d.Throughout (fun x => P x ∧ Q x) ↔ d.Throughout P ∧ d.Throughout Q :=
  forall₂_and

theorem throughout_iff_of_leaf (h : d.isLeaf = true) : d.Throughout P ↔ P d :=
  ⟨fun hall => hall d d.self_mem_nodes, throughout_of_leaf h⟩

end Data

theorem succeeds_asText {i : Int} : Succeeds (Atom.int i).asText ↔ Atom.isWritable (.int i) = true := by
  change Succeeds (Atom.written Number.text (.int i)) ↔ _
  unfold Atom.written
  split
  · rename_i h
    exact iff_of_true ⟨_, rfl⟩ h
  · rename_i h
    exact iff_of_false (fun ⟨_, h⟩ => by cases h) h

variable {d : Data} {items : List Data} {entries : List (Data.Text × Data)}

/-! ## JSON -/

namespace Json

variable {indent : Option Int} {level : Nat}

theorem succeeds_itemChars :
    Succeeds (itemChars indent level items) ↔ ∀ d ∈ items, Succeeds (chars indent level d) := by
  induction items with
  | nil => exact iff_of_true ⟨[], rfl⟩ fun d hd => absurd hd List.not_mem_nil
  | cons d rest ih =>
      rw [itemChars, succeeds_bind, List.forall_mem_cons, ← ih]
      constructor
      · rintro ⟨first, hfirst, h⟩
        obtain ⟨others, hothers, -⟩ := succeeds_bind.mp h
        exact ⟨⟨first, hfirst⟩, others, hothers⟩
      · rintro ⟨⟨first, hfirst⟩, others, hothers⟩
        exact ⟨first, hfirst, succeeds_bind.mpr ⟨others, hothers, _, rfl⟩⟩

theorem succeeds_entryChars :
    Succeeds (entryChars indent level entries) ↔ ∀ e ∈ entries, Succeeds (chars indent level e.2) := by
  induction entries with
  | nil => exact iff_of_true ⟨[], rfl⟩ fun e he => absurd he List.not_mem_nil
  | cons e rest ih =>
      obtain ⟨k, d⟩ := e
      rw [entryChars, succeeds_bind, List.forall_mem_cons, ← ih]
      constructor
      · rintro ⟨first, hfirst, h⟩
        obtain ⟨others, hothers, -⟩ := succeeds_bind.mp h
        exact ⟨⟨first, hfirst⟩, others, hothers⟩
      · rintro ⟨⟨first, hfirst⟩, others, hothers⟩
        exact ⟨first, hfirst, succeeds_bind.mpr ⟨others, hothers, _, rfl⟩⟩

theorem succeeds_chars_list : Succeeds (chars indent level (.list items)) ↔
    ∀ d ∈ items, Succeeds (chars indent (level + 1) d) := by
  cases items with
  | nil => exact iff_of_true ⟨_, rfl⟩ fun d hd => absurd hd List.not_mem_nil
  | cons d rest =>
      rw [← succeeds_itemChars, chars, itemChars, succeeds_bind, succeeds_bind]
      refine exists_congr fun first => and_congr_right fun _ => ?_
      rw [succeeds_bind, succeeds_bind]
      exact exists_congr fun others => and_congr_right fun _ => iff_of_true ⟨_, rfl⟩ ⟨_, rfl⟩

theorem succeeds_chars_dict : Succeeds (chars indent level (.dict entries)) ↔
    ∀ e ∈ entries, Succeeds (chars indent (level + 1) e.2) := by
  cases entries with
  | nil => exact iff_of_true ⟨_, rfl⟩ fun e he => absurd he List.not_mem_nil
  | cons e rest =>
      obtain ⟨k, d⟩ := e
      rw [← succeeds_entryChars, chars, entryChars, succeeds_bind, succeeds_bind]
      refine exists_congr fun first => and_congr_right fun _ => ?_
      rw [succeeds_bind, succeeds_bind]
      exact exists_congr fun others => and_congr_right fun _ => iff_of_true ⟨_, rfl⟩ ⟨_, rfl⟩

/-- Data has a text where all its integers have one. -/
theorem succeeds_chars : Succeeds (chars indent level d) ↔ d.Throughout Data.HasNumerals := by
  induction d using Data.recursion generalizing level with
  | int i =>
      rw [chars, Data.throughout_iff_of_leaf rfl]
      exact (succeeds_bind_of fun s => ⟨_, rfl⟩).trans succeeds_asText
  | list items ih =>
      rw [succeeds_chars_list, Data.throughout_list]
      exact (forall₂_congr fun d hd => ih d hd).trans (and_iff_right trivial).symm
  | dict entries ih =>
      rw [succeeds_chars_dict, Data.throughout_dict]
      exact (forall₂_congr fun e he => ih e he).trans (and_iff_right trivial).symm
  | _ => exact iff_of_true ⟨_, rfl⟩ (Data.throughout_of_leaf rfl trivial)

theorem succeeds_render : Succeeds (render indent d) ↔ d.Throughout Data.HasNumerals :=
  (succeeds_bind_of fun _ => ⟨_, rfl⟩).trans succeeds_chars

end Json

/-! ## YAML -/

namespace Yaml

/-- What is relied on of a writer of documents. -/
structure IsDumper (dump : Data → Except Fault String) : Prop where
  /-- A text of a derived class is refused wherever it stands, since a safe writer knows no class by its bases. -/
  refuses {data : Data} {s : String} : dump data = .ok s → data.Throughout Data.IsExact
  /-- The host's own types are all taken. Integers beyond the digit limit are left out. -/
  accepts {data : Data} : data.Throughout Data.IsExact → data.Throughout Data.HasNumerals → Succeeds (dump data)

theorem IsDumper.succeeds_iff {dump : Data → Except Fault String} (h : IsDumper dump)
    (hn : d.Throughout Data.HasNumerals) : Succeeds (dump d) ↔ d.Throughout Data.IsExact :=
  ⟨fun ⟨_, hs⟩ => h.refuses hs, fun hexact => h.accepts hexact hn⟩

variable {indent : Nat} {o : Output}

/-- What can be written. -/
def Takes (d : Data) : Prop := d.IsExact ∧ d.HasNumerals

theorem succeeds_checkText {t : Data.Text} : Succeeds (checkText t) ↔ t.cls = .native .str := by
  unfold checkText
  split
  · rename_i h
    exact iff_of_false (fun ⟨_, hok⟩ => by cases hok) h
  · rename_i h
    exact iff_of_true ⟨_, rfl⟩ (not_not.mp h)

theorem succeeds_writeKey {k : Data.Text} : Succeeds (writeKey indent k o) ↔ k.cls = .native .str := by
  refine (succeeds_bind_of fun u => ?_).trans succeeds_checkText
  dsimp only
  split <;> exact ⟨_, rfl⟩

theorem succeeds_writeItems
    (h : ∀ d ∈ items, ∀ indent inDict o, Succeeds (write indent inDict d o) ↔ d.Throughout Takes) :
    Succeeds (writeItems indent items o) ↔ ∀ d ∈ items, d.Throughout Takes := by
  induction items generalizing o with
  | nil => exact iff_of_true ⟨o, rfl⟩ fun d hd => absurd hd List.not_mem_nil
  | cons d rest ih =>
      obtain ⟨hd, hrest⟩ := List.forall_mem_cons.mp h
      rw [writeItems, succeeds_bind, List.forall_mem_cons, ← hd (some indent) false ((o.indentTo indent).indicator ['-'] true false true)]
      constructor
      · rintro ⟨o', ho', hothers⟩
        exact ⟨⟨o', ho'⟩, (ih hrest).mp hothers⟩
      · rintro ⟨⟨o', ho'⟩, hothers⟩
        exact ⟨o', ho', (ih hrest).mpr hothers⟩

theorem succeeds_writeEntries
    (h : ∀ e ∈ entries, ∀ indent inDict o, Succeeds (write indent inDict e.2 o) ↔ e.2.Throughout Takes) :
    Succeeds (writeEntries indent entries o) ↔
      (∀ e ∈ entries, e.1.cls = .native .str) ∧ ∀ e ∈ entries, e.2.Throughout Takes := by
  induction entries generalizing o with
  | nil => exact iff_of_true ⟨o, rfl⟩ ⟨fun e he => absurd he List.not_mem_nil, fun e he => absurd he List.not_mem_nil⟩
  | cons e rest ih =>
      obtain ⟨k, d⟩ := e
      obtain ⟨hd, hrest⟩ := List.forall_mem_cons.mp h
      rw [writeEntries, List.forall_mem_cons, List.forall_mem_cons]
      constructor
      · intro hsucceeds
        obtain ⟨o₁, hkey, hsucceeds⟩ := succeeds_bind.mp hsucceeds
        obtain ⟨o₂, hvalue, hothers⟩ := succeeds_bind.mp hsucceeds
        obtain ⟨hkeys, hvalues⟩ := (ih hrest).mp hothers
        exact ⟨⟨succeeds_writeKey.mp ⟨o₁, hkey⟩, hkeys⟩, (hd _ _ _).mp ⟨o₂, hvalue⟩, hvalues⟩
      · rintro ⟨⟨hk, hkeys⟩, hvalue, hvalues⟩
        obtain ⟨o₁, hkey⟩ := succeeds_writeKey.mpr hk
        obtain ⟨o₂, hvalue⟩ := (hd (some indent) true o₁).mpr hvalue
        exact succeeds_bind.mpr ⟨o₁, hkey, succeeds_bind.mpr ⟨o₂, hvalue, (ih hrest).mpr ⟨hkeys, hvalues⟩⟩⟩

/-- Data can be written where its integers have texts and no text is of a derived class. -/
theorem succeeds_write (indent : Option Nat) (inDict : Bool) (d : Data) (o : Output) :
    Succeeds (write indent inDict d o) ↔ d.Throughout Takes := by
  induction d using Data.recursion generalizing indent inDict o with
  | int i =>
      rw [write, Data.throughout_iff_of_leaf rfl]
      exact (succeeds_bind_of fun s => ⟨_, rfl⟩).trans (succeeds_asText.trans (and_iff_right trivial).symm)
  | text t =>
      rw [write, Data.throughout_iff_of_leaf rfl]
      exact (succeeds_bind_of fun u => ⟨_, rfl⟩).trans (succeeds_checkText.trans (and_iff_left trivial).symm)
  | list items ih =>
      rw [Data.throughout_list, and_iff_right ⟨trivial, trivial⟩]
      cases items with
      | nil => exact iff_of_true ⟨_, rfl⟩ fun d hd => absurd hd List.not_mem_nil
      | cons d rest =>
          rw [write.eq_def]
          exact succeeds_writeItems ih
  | dict entries ih =>
      have hself : Takes (.dict entries) ↔ ∀ e ∈ entries, e.1.cls = .native .str := and_iff_left trivial
      rw [Data.throughout_dict, hself]
      cases entries with
      | nil => exact iff_of_true ⟨_, rfl⟩ ⟨fun e he => absurd he List.not_mem_nil, fun e he => absurd he List.not_mem_nil⟩
      | cons e rest =>
          rw [write]
          exact succeeds_writeEntries ih
  | _ => exact iff_of_true ⟨_, rfl⟩ (Data.throughout_of_leaf rfl ⟨trivial, trivial⟩)

theorem succeeds_render :
    Succeeds (render d) ↔ d.Throughout Data.IsExact ∧ d.Throughout Data.HasNumerals := by
  rw [← Data.throughout_and]
  exact (succeeds_bind_of fun o => ⟨_, rfl⟩).trans (succeeds_write none false d _)

theorem isDumper_render : IsDumper render where
  refuses h := (succeeds_render.mp ⟨_, h⟩).1
  accepts hexact hn := succeeds_render.mpr ⟨hexact, hn⟩

end Yaml

/-! ## Where derived texts come from -/

namespace Lower

open World Dispatch

/-- Answers of conversions between two worlds: of a key that no plain text stands for, and of a number that stays
none. -/
inductive Converted (first last : World) (t : Data.Text) : Prop where
  | key {u v v' m pairs k x} : first.Evolves u → u.body m = .mapping pairs → (k, x) ∈ pairs → u.Evolves v →
      label? v k = none → converted k v = .ok t v' → v'.Evolves last → Converted first last t
  | decimal {v v' r x} : first.Evolves v → v.body r = .atom (.number (.decimal x)) → converted r v = .ok t v' →
      v'.Evolves last → Converted first last t
  | complex {v v' r re im} : first.Evolves v → v.body r = .atom (.number (.complex re im)) → converted r v = .ok t v' →
      v'.Evolves last → Converted first last t
  | declared {v v' r address} : first.Evolves v → v.body r = .atom (.number (.declared address)) →
      converted r v = .ok t v' → v'.Evolves last → Converted first last t

variable {w w' v v' : World} {r k : Ref} {t : Data.Text}

/-- A key is a text as it is, or what its conversion answers. -/
theorem key_ok (h : key k v = .ok t v') : t.cls = .native .str ∨ label? v k = none ∧ converted k v = .ok t v' := by
  rw [key, run_get] at h
  unfold label?
  cases ha : v.atom? k with
  | none =>
      rw [ha] at h
      exact .inr ⟨rfl, h⟩
  | some a =>
      rw [ha] at h
      cases a with
      | number n => exact .inr ⟨rfl, h⟩
      | _ =>
          cases h
          exact .inl rfl

/-- So is a plain value that becomes a text, unless it is a number that becomes the answer of a conversion. -/
theorem atomData_text {a : Atom} (h : atomData r a v = .ok (.text t) v') :
    t.cls = .native .str ∨ ((∃ x, a = .number (.decimal x)) ∨ (∃ re im, a = .number (.complex re im)) ∨
      ∃ address, a = .number (.declared address)) ∧ converted r v = .ok t v' := by
  have hconverted (h : (do return Data.text (← converted r)) v = .ok (.text t) v') : converted r v = .ok t v' := by
    obtain ⟨t', u, ht, h⟩ := run_bind h
    cases h
    exact ht
  cases a with
  | number n =>
      cases n with
      | int i => obtain ⟨i, hi⟩ := intOf_ok h; cases hi
      | float x | fraction num den => obtain ⟨x, hx⟩ := doubleOf_ok h; cases hx
      | decimal x => exact .inr ⟨.inl ⟨x, rfl⟩, hconverted h⟩
      | complex re im => exact .inr ⟨.inr (.inl ⟨re, im, rfl⟩), hconverted h⟩
      | declared address =>
          rw [atomData, run_get] at h
          split at h
          · obtain ⟨x, hx⟩ := doubleOf_ok h; cases hx
          · exact .inr ⟨.inr (.inr ⟨address, rfl⟩), hconverted h⟩
  | text s | bytes b =>
      cases h
      exact .inl rfl
  | _ => cases h

/-- Every text that a run ends with is exact, or some conversion on the way answered it. -/
theorem everyText_encode (hrun : encode r w = .ok d w') :
    d.Throughout (Data.EveryText fun t => t.cls = .native .str ∨ Converted w w' t) := by
  refine Invariant.encode (K := fun t => t.cls = .native .str ∨ Converted w w' t)
    (P := fun d => d.Throughout (Data.EveryText fun t => t.cls = .native .str ∨ Converted w w' t)) ?_ hrun
  exact {
    leaf := fun {v v' r a d} hv hb hd hlast => by
      have hleaf := isLeaf_of_atomData hd
      refine Data.throughout_of_leaf hleaf ?_
      cases d with
      | text t =>
          refine (atomData_text hd).imp_right fun ⟨hnumber, ht⟩ => ?_
          rcases hnumber with ⟨x, rfl⟩ | ⟨re, im, rfl⟩ | ⟨address, rfl⟩
          · exact .decimal hv hb ht hlast
          · exact .complex hv hb ht hlast
          · exact .declared hv hb ht hlast
      | dict entries => cases hleaf
      | _ => trivial
    key := fun hu hm hmem hv ht hlast => (key_ok ht).imp_right fun ⟨hlabel, ht⟩ => .key hu hm hmem hv hlabel ht hlast
    field := fun _ => .inl rfl
    name := fun _ => Data.throughout_of_leaf rfl (.inl rfl)
    list := fun h => Data.throughout_list.mpr ⟨trivial, h⟩
    dict := fun h => Data.throughout_dict.mpr
      ⟨Data.forall_key_ofEntries (P := fun t => t.cls = .native .str ∨ Converted w w' t) fun e he => (h e he).1,
        forall_mem_ofEntries fun e he => (h e he).2⟩ }

theorem exists_run_liftExcept {α : Type} {x : Except Fault α} : (∃ a u, Act.liftExcept x v = .ok a u) ↔ Succeeds x := by
  cases x with
  | error fault => exact iff_of_false (fun ⟨a, u, h⟩ => by cases h) fun ⟨a, h⟩ => by cases h
  | ok a => exact iff_of_true ⟨a, v, rfl⟩ ⟨a, rfl⟩

theorem exists_yamlTextBy {dump : Data → Except Fault String} (hrun : encode r w = .ok d w') :
    (∃ s u, Handle.yamlTextBy dump r w = .ok s u) ↔ Succeeds (dump d) := by
  rw [Handle.yamlTextBy, run_bind_ok hrun, exists_run_liftExcept]

/-- What lowering ends with holds a text of a derived class only where a conversion answered it. A writer of documents
takes it unless it does, and as JSON it is written in any case, where its integers have texts. -/
theorem encoders_answer_iff {dump : Data → Except Fault String} (hdump : Yaml.IsDumper dump)
    (hrun : encode r w = .ok d w') :
    d.Throughout (Data.EveryText fun t => t.cls = .native .str ∨ Converted w w' t) ∧
    (d.Throughout Data.HasNumerals → ((∃ s u, Handle.yamlTextBy dump r w = .ok s u) ↔ d.Throughout Data.IsExact)) ∧
    ∀ indent, (∃ s u, Handle.jsonText indent r w = .ok s u) ↔ d.Throughout Data.HasNumerals := by
  refine ⟨everyText_encode hrun, fun hn => ?_, fun indent => ?_⟩
  · rw [exists_yamlTextBy hrun, hdump.succeeds_iff hn]
  · rw [Handle.jsonText, run_bind_ok hrun, exists_run_liftExcept, Json.succeeds_render]

/-- A mapping with a tuple, a number and a box as keys. -/
def labelled (tainted : Bool) : World :=
  { Session.initialWorld with
    cells := #[cellOf .dict (.mapping [(.cell 1, .atom .none), (intRef 1, .atom .none), (.cell 2, .atom .none)]),
      cellOf .tuple (.sequence [intRef 1, .atom (.text "a")]), cellOf .scalar (.box (.atom (.text "x")) tainted)] }

def labelledData (cls : ClassId) : Data :=
  .dict [(.plain "(1, 'a')", .null), (.plain "1", .null), (⟨"x", cls⟩, .null)]

theorem encoders_answer_labelled : ∃ w', encode (.cell 0) (labelled false) = .ok (labelledData (.native .str)) w' ∧
    (∃ s u, Handle.yamlText (.cell 0) (labelled false) = .ok s u) ∧
    ∃ s u, Handle.jsonText (some 2) (.cell 0) (labelled false) = .ok s u := by
  have hrun : ∃ w', encode (.cell 0) (labelled false) = .ok (labelledData (.native .str)) w' := ⟨_, rfl⟩
  obtain ⟨w', hrun⟩ := hrun
  obtain ⟨-, hyaml, hjson⟩ := encoders_answer_iff Yaml.isDumper_render hrun
  exact ⟨w', hrun, (hyaml (by decide)).mpr (by decide), (hjson (some 2)).mpr (by decide)⟩

/-- The text of a tainted box is of a class of its own, also as a key. -/
theorem not_isExact_tainted : ∃ w', encode (.cell 0) (labelled true) = .ok (labelledData (.native .taintedStr)) w' ∧
    ¬ (labelledData (.native .taintedStr)).Throughout Data.IsExact ∧
    ¬ ∃ s u, Handle.yamlText (.cell 0) (labelled true) = .ok s u := by
  have hexact : ¬ (labelledData (.native .taintedStr)).Throughout Data.IsExact := by decide
  have hrun : ∃ w', encode (.cell 0) (labelled true) = .ok (labelledData (.native .taintedStr)) w' := ⟨_, rfl⟩
  obtain ⟨w', hrun⟩ := hrun
  refine ⟨w', hrun, hexact, ?_⟩
  rw [Handle.yamlText, exists_yamlTextBy hrun]
  exact fun ⟨s, hs⟩ => hexact (Yaml.isDumper_render.refuses hs)

end Lower

end Introspect
