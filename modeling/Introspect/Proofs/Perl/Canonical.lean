import Introspect.Handle
import Introspect.Proofs.Perl.Reordering
/-!
When a dump is canonical. The order in which mappings hold their entries does not show exactly where entries
whose keys share a literal have values that are written alike.
-/
namespace Introspect.Perl

open World

/-- One text, in whatever order the world holds its entries. -/
def Canonical (w : World) (m : Act String) : Prop := ∃ text, ∀ v, w.Reorders v → v.Settles m (.ok text)

def ShareLiteral (w : World) (k k' : Ref) : Prop :=
  ∃ text, w.Settles (literal k) (.ok text) ∧ w.Settles (literal k') (.ok text)

def ShareDump (w : World) (a b : Ref) : Prop :=
  ∃ text, w.Settles (encode a 0) (.ok text) ∧ w.Settles (encode b 0) (.ok text)

variable {w v : World} {S : List Ref} {r x : Ref} {a : Atom} {entries : List (Ref × Ref)}

/-! ## Values that are written -/

theorem termOf_atom (hw : Data w S) (hac : w.Acyclic S) (hr : r ∈ S) (ha : w.body r = .atom a) :
    termOf w S r = contentOf a := by
  rw [termOf_eq hw.graph.toClosed hac hr, writeStep, ha]
  exact hw.answer_atomTerm hr ha

/-- Every plain value has a text. -/
def Written (w : World) (S : List Ref) : Prop :=
  ∀ r ∈ S, ∀ a, w.body r = .atom a → ∃ text, w.Settles (encode r 0) (.ok text)

theorem Written.content (h : Written w S) (hw : Data w S) (hac : w.Acyclic S) (hr : r ∈ S)
    (ha : w.body r = .atom a) : Succeeds (contentOf a) := by
  obtain ⟨text, htext⟩ := h r hr a ha
  obtain ⟨t, ht, -⟩ := termOf_of_settles hw.graph hac hr htext
  exact ⟨t, termOf_atom hw hac hr ha ▸ ht⟩

theorem Written.asText (h : Written w S) (hw : Data w S) (hac : w.Acyclic S) (hr : r ∈ S) {n : Number}
    (hn : w.body r = .atom (.number n)) : Succeeds (Atom.number n).asText :=
  succeeds_map.mp (h.content hw hac hr hn)

theorem Written.legible (h : Written w S) (hw : Data w S) (hac : w.Acyclic S) (hr : r ∈ S) : Legible w r where
  value a ha := by
    obtain ⟨t, ht⟩ := h.content hw hac hr ha
    exact ⟨t, ht ▸ settles_atomTerm (hw.data r hr) (hw.has r hr) ha⟩
  keys entries hb e he n hn := by
    have hk := hw.graph.key hr hb he
    obtain ⟨s, hs⟩ := h.asText hw hac hk hn
    exact ⟨s, hs ▸ settles_textOf_number (isOrdinary_of_isData (hw.data _ hk) (hw.has _ hk) hn)⟩

theorem Written.succeeds (h : Written w S) (hw : Data w S) (hac : w.Acyclic S) (hr : r ∈ S) :
    Succeeds (termOf w S r) :=
  succeeds_termOf hw.graph.toClosed hac hr fun _ hy => h.legible hw hac (hy.mem hw.graph.toClosed hr)

theorem Written.literal (h : Written w S) (hw : Data w S) (hac : w.Acyclic S) (hr : r ∈ S) :
    Succeeds (literalOf w S r) := by
  have hcompact : Succeeds (writtenText (fun _ _ c => termOf w S c) r) :=
    succeeds_text.mpr (h.succeeds hw hac hr)
  unfold literalOf writtenKey
  cases ha : w.atom? r with
  | none => exact hcompact
  | some a =>
      cases a with
      | none => exact hcompact
      | number n =>
          have hbody := body_of_atom? ha
          simp only [hw.answer_textOf hr hbody]
          exact succeeds_map.mpr (h.asText hw hac hr hbody)
      | _ => exact ⟨_, rfl⟩

theorem settles_digestedText (hG : Graph w S) (hac : w.Acyclic S) (hr : r ∈ S) (view : Dispatch.View) :
    w.Settles (Handle.digestedText ⟨view, r⟩)
      ((fun t => Registry.typeName w r ++ "\n" ++ t.render 0) <$> termOf w S r) := by
  filter_upwards [hG.eventually_ready, Filter.eventually_gt_atTop (w.height S r)] with n hready hn
  have hencode := steady_encode hG hready hr 0
  rw [write_eq_termOf hG.toClosed hac hr hn] at hencode
  refine (Registry.steady_qnameOf (hready.grows.sound hG.sound) (hready.grows.has (hG.has r hr))).bind
    (g := fun name => (fun t => name ++ "\n" ++ t.render 0) <$> termOf w S r) fun name _ => ?_
  cases ht : termOf w S r with
  | error fault =>
      rw [ht] at hencode
      exact hencode.bind (g := fun _ => .error fault) fun text hno => by cases hno
  | ok t =>
      rw [ht] at hencode
      refine hencode.bind (g := fun text => .ok (name ++ "\n" ++ text)) fun text _ => .pure _ _

/-! ## Entries that agree -/

/-- Entries whose keys share a literal have values of one dump. -/
def Unambiguous (w : World) (S : List Ref) : Prop :=
  ∀ r ∈ S, ∀ entries, w.body r = .mapping entries → ∀ e ∈ entries, ∀ e' ∈ entries,
    ShareLiteral w e.1 e'.1 → ShareDump w e.2 e'.2

theorem ShareDump.termOf_eq {a b : Ref} (hw : Data w S) (hac : w.Acyclic S) (ha : a ∈ S) (hb : b ∈ S)
    (h : ShareDump w a b) : termOf w S a = termOf w S b := by
  obtain ⟨text, hta, htb⟩ := h
  obtain ⟨ta, hta, htext⟩ := termOf_of_settles hw.graph hac ha hta
  obtain ⟨tb, htb, htext'⟩ := termOf_of_settles hw.graph hac hb htb
  rw [hta, htb, term_of_text hw ha hb hta htb (htext.trans htext'.symm)]

theorem Unambiguous.tiesAgree (h : Unambiguous w S) (hw : Data w S) (hac : w.Acyclic S) (hwritten : Written w S)
    (hr : r ∈ S) (hb : w.body r = .mapping entries) : TiesAgree w (termOf w S) entries := by
  intro e he e' he' hkeys
  have hG := hw.graph
  have hliteral {e : Ref × Ref} (he : e ∈ entries) :
      w.Settles (literal e.1) (.ok (keyText w (termOf w S) e.1)) := by
    have hk := hG.key hr hb he
    rw [← writtenKey_eq (hwritten.literal hw hac hk)]
    exact settles_literal hG hac hk
  have hshare : ShareLiteral w e.1 e'.1 := ⟨_, hliteral he, hkeys ▸ hliteral he'⟩
  exact (h r hr entries hb e he e' he' hshare).termOf_eq hw hac (hG.value hr hb he) (hG.value hr hb he')

theorem termOf_of_unambiguous (h : Unambiguous w S) (hw : Data w S) (hac : w.Acyclic S)
    (hwritten : Written w S) (hr : r ∈ S) (hv : w.Reorders v) : termOf v S r = termOf w S r := by
  have hS := hw.graph.toClosed
  refine termOf_reordered hw hac hv hr fun x hx entries hb => ?_
  have hxS : x ∈ S := hS.mem_of_parts hr hx
  exact .inr ⟨fun e he => hwritten.literal hw hac (hS.key hxS hb he), h.tiesAgree hw hac hwritten hxS hb⟩

/-! ## An entry in front of the others -/

def withEntries (w : World) (address : Nat) (entries : List (Ref × Ref)) : World :=
  { w with cells := w.cells.modify address ({ · with body := .mapping entries }) }

theorem exists_cell (hb : w.body r = .mapping entries) :
    ∃ i c, r = .cell i ∧ w.cells[i]? = some c ∧ c.body = .mapping entries := by
  cases r with
  | cell i =>
      change (w.cells[i]?).elim Body.nothing (·.body) = _ at hb
      cases hc : w.cells[i]? with
      | none => rw [hc] at hb; cases hb
      | some c => rw [hc] at hb; exact ⟨i, c, rfl, hc, hb⟩
  | entry c key => rcases w.body_entry c key with h | h <;> rw [h] at hb <;> cases hb
  | _ => cases hb

theorem body_withEntries {i : Nat} {c : Cell} (hc : w.cells[i]? = some c) (entries : List (Ref × Ref)) :
    (withEntries w i entries).body (.cell i) = .mapping entries := by
  simp [withEntries, World.body, Array.getElem?_modify, hc]

theorem body_withEntries_of_ne {i : Nat} (hr : r ≠ .cell i) (entries : List (Ref × Ref)) :
    (withEntries w i entries).body r = w.body r := by
  cases r with
  | cell j =>
      have hij : i ≠ j := fun h => hr (by rw [h])
      simp [withEntries, World.body, Array.getElem?_modify, hij]
  | _ => rfl

theorem reorders_withEntries {i : Nat} {c : Cell} {entries' : List (Ref × Ref)} (hc : w.cells[i]? = some c)
    (hb : c.body = .mapping entries) (hp : entries.Perm entries') : w.Reorders (withEntries w i entries') where
  rest := rfl
  cells j := by
    have hfront : c.Reorders { c with body := .mapping entries' } :=
      ⟨rfl, by rw [hb]; exact hp, rfl, (Cell.Reorders.refl c).attributes⟩
    rw [withEntries, Array.getElem?_modify]
    by_cases hij : i = j
    · subst hij
      rw [if_pos rfl, hc]
      exact .some hfront
    · rw [if_neg hij]
      exact (Reorders.refl w).cells j

theorem typed_inj {t t' : Term} (h : typed w r t = typed w r t') : t = t' := by
  unfold typed at h
  split at h
  · exact h
  · exact (Term.blessed.inj h).1

theorem find?_of_mapM {g : Ref → Except Fault Term} {pairs : List (List Char × Ref)}
    {written : List (List Char × Term)} {y : List Char × Ref} {key : List Char}
    (h : pairs.mapM (fun e => do return (e.1, ← g e.2)) = .ok written)
    (hy : pairs.find? (·.1 = key) = some y) :
    ∃ t, g y.2 = .ok t ∧ written.find? (·.1 = key) = some (y.1, t) := by
  have hall := mapM_ok_iff.mp h
  clear h
  induction hall with
  | nil => cases hy
  | @cons e _ _ _ he _ ih =>
      obtain ⟨t, ht, he⟩ := bind_ok_iff.mp he
      cases he
      by_cases hkey : e.1 = key
      · rw [List.find?_cons_of_pos (by simpa using hkey)] at hy
        cases hy
        exact ⟨t, ht, List.find?_cons_of_pos (by simpa using hkey)⟩
      · rw [List.find?_cons_of_neg (by simpa using hkey)] at hy
        rw [List.find?_cons_of_neg (by simpa using hkey)]
        exact ih hy

theorem find?_of_writtenHash {g : Ref → Except Fault Term} {active : Active} {p : Path}
    {pairs : List (List Char × Ref)} {t : Term} {y : List Char × Ref} {key : List Char}
    (h : writtenHash (fun _ _ => g) active p pairs = .ok t) (hy : pairs.find? (·.1 = key) = some y) :
    ∃ written u, t = .hash written ∧ g y.2 = .ok u ∧ written.find? (·.1 = key) = some (y.1, u) := by
  have hy' : (byText pairs).find? (·.1 = key) = some y := by
    rw [← List.head?_filter, filter_byText, List.head?_filter]
    exact hy
  rw [writtenHash, writtenEntries_const] at h
  obtain ⟨written, hw, h⟩ := bind_ok_iff.mp h
  cases h
  obtain ⟨u, hu, hfound⟩ := find?_of_mapM hw hy'
  exact ⟨written, u, rfl, hu, hfound⟩

/-- An entry is written first among those of its literal in some world that differs in order alone. -/
theorem exists_first (hw : Data w S) (hac : w.Acyclic S) (hwritten : Written w S) (hr : r ∈ S)
    (hb : w.body r = .mapping entries) {e : Ref × Ref} (he : e ∈ entries) :
    ∃ v written u, w.Reorders v ∧ termOf v S r = .ok (typed w r (.hash written)) ∧ termOf w S e.2 = .ok u ∧
      written.find? (·.1 = keyText w (termOf w S) e.1) = some (keyText w (termOf w S) e.1, u) := by
  obtain ⟨i, c, rfl, hc, hcb⟩ := exists_cell hb
  have hp : entries.Perm (e :: entries.erase e) := List.perm_cons_erase he
  have hv := reorders_withEntries hc hcb hp
  have hS := hw.graph.toClosed
  have hparts : ∀ d, (withEntries w i (e :: entries.erase e)).Part (.cell i) d →
      termOf (withEntries w i (e :: entries.erase e)) S d = termOf w S d := fun d hd => by
    have hd := hw.part_reordered hv hr hd
    refine termOf_reordered hw hac hv (hS.parts _ hr d hd) fun x hx _ _ => .inl ?_
    exact body_withEntries_of_ne (fun hx' => hac _ hr (.head' hd (hx' ▸ hx))) _
  have hkeys : ∀ e' ∈ e :: entries.erase e, Succeeds (writtenKey w (fun _ _ c => termOf w S c) e'.1) :=
    fun e' he' => hwritten.literal hw hac (hS.key hr hb (hp.mem_iff.mpr he'))
  have hstep : termOf (withEntries w i (e :: entries.erase e)) S (.cell i) =
      typed w (.cell i) <$> writtenHash (fun _ _ c => termOf w S c) [(.cell i, .root)] .root
        ((e :: entries.erase e).map fun e => (keyText w (termOf w S) e.1, e.2)) := by
    rw [termOf_eq (hw.reordered hv).graph.toClosed (hw.acyclic_reordered hac hv) hr,
      writeStep_const_congr hparts, writeStep_mapping (body_withEntries hc _) rfl, typed_outline hv.outline (.cell i),
      writtenMapping_reordered hw hv fun e' he' => hS.key hr hb (hp.mem_iff.mpr he'), writtenMapping_eq hkeys]
  obtain ⟨t, ht⟩ : Succeeds (writtenHash (fun _ _ c => termOf w S c) [(.cell i, .root)] .root
      ((e :: entries.erase e).map fun e => (keyText w (termOf w S) e.1, e.2))) := by
    refine succeeds_hash.mpr (succeeds_entries fun y hy q => ?_)
    obtain ⟨e', he', rfl⟩ := List.mem_map.mp (mem_byText.mp hy)
    exact hwritten.succeeds hw hac (hS.value hr hb (hp.mem_iff.mpr he'))
  have hfirst : ((e :: entries.erase e).map fun e => (keyText w (termOf w S) e.1, e.2)).find?
      (·.1 = keyText w (termOf w S) e.1) = some (keyText w (termOf w S) e.1, e.2) :=
    List.find?_cons_of_pos (by simp)
  obtain ⟨written, u, rfl, hu, hfound⟩ := find?_of_writtenHash ht hfirst
  exact ⟨_, written, u, hv, by rw [hstep, ht]; rfl, hu, hfound⟩

theorem unambiguous_of_canonical (hw : Data w S) (hac : w.Acyclic S)
    (h : ∀ r ∈ S, Canonical w (encode r 0)) : Written w S ∧ Unambiguous w S := by
  have hG := hw.graph
  have hwritten : Written w S := fun r hr _ _ => by
    obtain ⟨text, htext⟩ := h r hr
    exact ⟨text, htext w (.refl w)⟩
  refine ⟨hwritten, fun r hr entries hb e he e' he' ⟨text, hliteral, hliteral'⟩ => ?_⟩
  have hkey {e : Ref × Ref} (he : e ∈ entries) (hl : w.Settles (literal e.1) (.ok text)) :
      keyText w (termOf w S) e.1 = text := by
    have hk := hG.key hr hb he
    have heq := (settles_literal hG hac hk).unique hl
    rw [literalOf, writtenKey_eq (hwritten.literal hw hac hk)] at heq
    exact Except.ok.inj heq
  -- Either entry may be held first. Both dumps are one text, so they show one value under the literal.
  obtain ⟨v, written, u, hv, ht, hu, hfirst⟩ := exists_first hw hac hwritten hr hb he
  obtain ⟨v', written', u', hv', ht', hu', hfirst'⟩ := exists_first hw hac hwritten hr hb he'
  rw [hkey he hliteral] at hfirst
  rw [hkey he' hliteral'] at hfirst'
  obtain ⟨dump, hdump⟩ := h r hr
  have hrender {v : World} {t : Term} (hv : w.Reorders v) (ht : termOf v S r = .ok t) : t.render 0 = dump := by
    obtain ⟨t', ht', htext⟩ := termOf_of_settles (hw.reordered hv).graph (hw.acyclic_reordered hac hv) hr (hdump v hv)
    rw [ht] at ht'
    cases ht'
    exact htext
  have hproper {v : World} {t : Term} (hv : w.Reorders v) (ht : termOf v S r = .ok t) : Proper t :=
    proper_termOf (hw.reordered hv) hr ht
  have hterms := (hproper hv ht).chars_inj (hproper hv' ht')
    (String.ofList_injective ((hrender hv ht).trans (hrender hv' ht').symm))
  rw [Term.hash.inj (typed_inj hterms), hfirst'] at hfirst
  cases hfirst
  exact ⟨u.render 0, settles_of_termOf hG hac (hG.value hr hb he) hu 0,
    settles_of_termOf hG hac (hG.value hr hb he') hu' 0⟩

/-- Dumps and the input of checksums are canonical, for a value and all its parts, exactly if the plain
values have texts and entries whose keys share a literal have values of one dump. -/
theorem encode_canonical_iff (hw : Data w S) (hac : w.Acyclic S) :
    (∀ r ∈ S, (∀ indent, Canonical w (encode r indent)) ∧
        ∀ view, Canonical w (Handle.digestedText ⟨view, r⟩)) ↔
      Written w S ∧ Unambiguous w S := by
  constructor
  · exact fun h => unambiguous_of_canonical hw hac fun r hr => (h r hr).1 0
  · rintro ⟨hwritten, hagree⟩ r hr
    obtain ⟨t, ht⟩ := hwritten.succeeds hw hac hr
    have hterm (v : World) (hv : w.Reorders v) : termOf v S r = .ok t :=
      (termOf_of_unambiguous hagree hw hac hwritten hr hv).trans ht
    refine ⟨fun indent => ⟨t.render indent, fun v hv => ?_⟩,
      fun view => ⟨Registry.typeName w r ++ "\n" ++ t.render 0, fun v hv => ?_⟩⟩
    · exact settles_of_termOf (hw.reordered hv).graph (hw.acyclic_reordered hac hv) hr (hterm v hv) indent
    · have hsettles := settles_digestedText (hw.reordered hv).graph (hw.acyclic_reordered hac hv) hr view
      rw [hterm v hv, typeName_outline hv.outline] at hsettles
      exact hsettles

/-! ## A text and bytes of one literal -/

theorem termOf_tie (hw : Data w S) (hac : w.Acyclic S) (hr : r ∈ S) {e e' : Ref × Ref} {key : List Char} {t t' : Term}
    (hb : w.body r = .mapping [e, e']) (hk : literalOf w S e.1 = .ok key) (hk' : literalOf w S e'.1 = .ok key)
    (ht : termOf w S e.2 = .ok t) (ht' : termOf w S e'.2 = .ok t') :
    termOf w S r = .ok (typed w r (.hash [(key, t), (key, t')])) := by
  unfold literalOf at hk hk'
  have hpairs : ([e, e'].mapM fun e : Ref × Ref => do
      return (← writtenKey w (fun _ _ c => termOf w S c) e.1, e.2)) = .ok [(key, e.2), (key, e'.2)] := by
    simp only [List.mapM_cons, List.mapM_nil, hk, hk']
    rfl
  have hsorted : byText [(key, e.2), (key, e'.2)] = [(key, e.2), (key, e'.2)] :=
    List.mergeSort_of_pairwise (by simp)
  rw [termOf_eq hw.graph.toClosed hac hr, writeStep_mapping hb rfl, writtenMapping, hpairs]
  simp only [Bind.bind, Except.bind, writtenHash, hsorted, writtenEntries, ht, ht']
  rfl

/-- A mapping that has a one under a text and a two under the bytes of that text. -/
def clashing : World :=
  { Session.initialWorld with
    cells := #[dict [(textRef "a", intRef 1), (.atom (.bytes [97]), intRef 2)]] }

def clashed : World := withEntries clashing 0 [(.atom (.bytes [97]), intRef 2), (textRef "a", intRef 1)]

def clashingRefs : List Ref := [.cell 0, textRef "a", .atom (.bytes [97]), intRef 1, intRef 2]

theorem reorders_clashing : clashing.Reorders clashed := reorders_withEntries rfl rfl (.swap ..)

theorem data_clashing : Data clashing clashingRefs where
  sound := Registry.sound_empty
  has := by decide
  data := by decide
  parts := by decide
  names := by decide
  payloads := by
    intro r hr n hn negative signaling payload hpayload
    simp only [clashingRefs, List.mem_cons, List.not_mem_nil, or_false] at hr
    rcases hr with rfl | rfl | rfl | rfl | rfl <;> cases hn <;> cases hpayload

theorem acyclic_clashing : clashing.Acyclic clashingRefs := by
  refine data_clashing.acyclic_of_parts (fun r => if r = .cell 0 then 1 else 0) (by decide)

/-- The order of the two entries shows. -/
theorem encode_clashing : clashing.Reorders clashed ∧
    clashing.Settles (encode (.cell 0) 0) (.ok "\x7b'a' => 1,'a' => 2\x7d") ∧
    clashed.Settles (encode (.cell 0) 0) (.ok "\x7b'a' => 2,'a' => 1\x7d") := by
  have hw := data_clashing.reordered reorders_clashing
  have hac := data_clashing.acyclic_reordered acyclic_clashing reorders_clashing
  have hone {w : World} (hw : Data w clashingRefs) (hac : w.Acyclic clashingRefs) :
      termOf w clashingRefs (intRef 1) = .ok (.bare ['1']) :=
    (termOf_atom hw hac (by decide) rfl).trans (by rfl)
  have htwo {w : World} (hw : Data w clashingRefs) (hac : w.Acyclic clashingRefs) :
      termOf w clashingRefs (intRef 2) = .ok (.bare ['2']) :=
    (termOf_atom hw hac (by decide) rfl).trans (by rfl)
  refine ⟨reorders_clashing, ?_, ?_⟩
  · have hterm := termOf_tie (r := .cell 0) data_clashing acyclic_clashing (by decide) rfl rfl rfl
      (hone data_clashing acyclic_clashing) (htwo data_clashing acyclic_clashing)
    exact settles_of_termOf data_clashing.graph acyclic_clashing (by decide) hterm 0
  · have hterm := termOf_tie (r := .cell 0) hw hac (by decide) rfl rfl rfl (htwo hw hac) (hone hw hac)
    exact settles_of_termOf hw.graph hac (by decide) hterm 0

/-! ## Two texts of two literals -/

def furniture : World :=
  { Session.initialWorld with
    cells := #[dict [(textRef "chair", intRef 50), (textRef "table", .cell 1)],
      ⟨.native .list, .sequence [intRef 1, intRef 2], [], none⟩] }

def furnitureRefs : List Ref :=
  [.cell 0, .cell 1, textRef "chair", textRef "table", intRef 50, intRef 1, intRef 2]

theorem data_furniture : Data furniture furnitureRefs where
  sound := Registry.sound_empty
  has := by decide
  data := by decide
  parts := by decide
  names := by decide
  payloads := by
    intro r hr n hn negative signaling payload hpayload
    simp only [furnitureRefs, List.mem_cons, List.not_mem_nil, or_false] at hr
    rcases hr with rfl | rfl | rfl | rfl | rfl | rfl | rfl <;> cases hn <;> cases hpayload

def furnitureRank : Ref → Nat
  | .cell 0 => 2
  | .cell 1 => 1
  | _ => 0

theorem acyclic_furniture : furniture.Acyclic furnitureRefs :=
  data_furniture.acyclic_of_parts furnitureRank (by decide)

theorem written_furniture : Written furniture furnitureRefs := by
  intro r hr a ha
  have hcontent : Succeeds (contentOf a) := by
    simp only [furnitureRefs, List.mem_cons, List.not_mem_nil, or_false] at hr
    rcases hr with rfl | rfl | rfl | rfl | rfl | rfl | rfl <;> cases ha <;> exact ⟨_, rfl⟩
  obtain ⟨t, ht⟩ := hcontent
  exact ⟨_, settles_of_termOf data_furniture.graph acyclic_furniture hr
    ((termOf_atom data_furniture acyclic_furniture hr ha).trans ht) 0⟩

theorem unambiguous_furniture : Unambiguous furniture furnitureRefs := by
  have hG := data_furniture.graph
  have hliteral {s : String} (hs : textRef s ∈ furnitureRefs) :
      furniture.Settles (literal (textRef s)) (.ok (quote s.toList)) :=
    settles_literal hG acyclic_furniture hs
  have hself {c : Ref} (hc : c ∈ furnitureRefs) : ShareDump furniture c c := by
    obtain ⟨t, ht⟩ := written_furniture.succeeds data_furniture acyclic_furniture hc
    exact ⟨_, settles_of_termOf hG acyclic_furniture hc ht 0, settles_of_termOf hG acyclic_furniture hc ht 0⟩
  have hdiffer : ¬ ShareLiteral furniture (textRef "chair") (textRef "table") := fun ⟨text, hchair, htable⟩ => by
    have hchair := (hliteral (by decide)).unique hchair
    have htable := (hliteral (by decide)).unique htable
    rw [← htable] at hchair
    exact absurd (Except.ok.inj hchair) (by decide)
  intro r hr entries hb e he e' he' hshare
  simp only [furnitureRefs, List.mem_cons, List.not_mem_nil, or_false] at hr
  rcases hr with rfl | rfl | rfl | rfl | rfl | rfl | rfl <;> cases hb
  simp only [List.mem_cons, List.not_mem_nil, or_false] at he he'
  rcases he with rfl | rfl <;> rcases he' with rfl | rfl
  · exact hself (by decide)
  · exact absurd hshare hdiffer
  · exact absurd (Exists.imp (fun _ => And.symm) hshare) hdiffer
  · exact hself (by decide)

/-- The order of pieces of furniture does not show. -/
theorem canonical_furniture : Canonical furniture (encode (.cell 0) 2) :=
  ((encode_canonical_iff data_furniture acyclic_furniture).mpr ⟨written_furniture, unambiguous_furniture⟩
    (.cell 0) (by decide)).1 2

end Introspect.Perl
