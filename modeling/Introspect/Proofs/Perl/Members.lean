import Introspect.Proofs.Perl.Proper
import Introspect.Proofs.Perl.Relocation
import Introspect.Proofs.Perl.Reordering
import Introspect.Proofs.Reflect.Members
/-!
Dumps of sets. Members are written in the order of their compact texts. Members of one text have one term on their
own, and so at any place, so that the order a set holds its members in does not show.
-/
namespace Introspect.Perl

open World

/-- The numbers among the keys of mappings are of the host's own classes. -/
def BuiltinKeys (w : World) (S : List Ref) : Prop :=
  ∀ r ∈ S, ∀ entries, w.body r = .mapping entries → ∀ e ∈ entries, ∀ n, w.body e.1 = .atom (.number n) →
    w.classOf e.1 = .native (atomClass (.number n)) ∧
      ∀ negative signaling payload, n = .decimal (.nan negative signaling payload) → IsPlain payload

/-- Two worlds that differ in the order of members, where that order shows neither in the terms of plain values
nor in the fields of objects. -/
structure Indifferent (w v : World) (S : List Ref) : Prop where
  order : w.Rearranges v
  graph : Graph w S
  graph' : Graph v S
  values : ∀ r ∈ S, ∀ a, w.body r = .atom a → ∀ x, w.Settles (atomTerm r a) x → v.Settles (atomTerm r a) x
  fields : ∀ r ∈ S, w.isObject r = true → ∀ x, w.Settles (fields r) x → v.Settles (fields r) x
  keys : BuiltinKeys w S

variable {w v : World} {S : List Ref} {r c k : Ref} {active : Active} {p : Path}

theorem BuiltinKeys.isOrdinary (h : BuiltinKeys w S) (hG : Graph w S) (hr : r ∈ S) {entries : List (Ref × Ref)}
    (hb : w.body r = .mapping entries) {e : Ref × Ref} (he : e ∈ entries) {n : Number}
    (hn : w.body e.1 = .atom (.number n)) : w.IsOrdinary e.1 (.number n) :=
  ⟨hG.has _ (hG.key hr hb he), hn, (h r hr entries hb e he n hn).1⟩

theorem BuiltinKeys.keysClosed (h : BuiltinKeys w S) (hG : Graph w S) : KeysClosed w S :=
  fun r hr entries hb e he n hn s hs => by
    rw [text_of_asText ((settles_textOf_number (h.isOrdinary hG hr hb he hn)).unique hs)]
    exact closed_number n (h r hr entries hb e he n hn).2

namespace Indifferent

variable (h : Indifferent w v S)
include h

theorem answer_atomTerm (hr : r ∈ S) {a : Atom} (ha : w.body r = .atom a) :
    v.answer (atomTerm r a) = w.answer (atomTerm r a) :=
  (h.values r hr a ha _ (settles_answer (h.graph.values r hr a ha))).answer_eq

theorem storage (hr : r ∈ S) (ho : w.isObject r = true) : v.storage r = w.storage r := by
  obtain ⟨pairs, hpairs⟩ := h.graph.storage r hr ho
  rw [storage_eq hpairs, storage_eq (h.fields r hr ho _ hpairs)]

theorem symm : Indifferent v w S where
  order := h.order.symm
  graph := h.graph'
  graph' := h.graph
  values r hr a ha x hx := by
    have ha' : w.body r = .atom a := (h.order.symm.body_eq (by rw [ha]; simp)).trans ha
    rw [← (h.values r hr a ha' _ (settles_answer (h.graph.values r hr a ha'))).unique hx]
    exact settles_answer (h.graph.values r hr a ha')
  fields r hr ho x hx := by
    have ho' : w.isObject r = true := (h.order.outline.isObject r).symm.trans ho
    obtain ⟨pairs, hpairs⟩ := h.graph.storage r hr ho'
    rw [← (h.fields r hr ho' _ hpairs).unique hx]
    exact hpairs
  keys r hr entries hb e he n hn := by
    have hb' : w.body r = .mapping entries := (h.order.symm.body_eq (by rw [hb]; simp)).trans hb
    have hn' : w.body e.1 = .atom (.number n) := (h.order.symm.body_eq (by rw [hn]; simp)).trans hn
    rw [h.order.outline.classOf]
    exact h.keys r hr entries hb' e he n hn'

theorem typed : typed v r = typed w r := typed_outline h.order.outline r

theorem inside (hr : r ∈ S) (hc : v.Inside r c) : w.Inside r c := by
  rcases hc with hb | ⟨hi, hc⟩ | ⟨hb, he⟩ | ⟨ho, he⟩
  · exact .content ((h.order.symm.body_eq (by rw [hb]; simp)).trans hb)
  · exact .item ((h.order.outline.items? r).symm.trans hi) hc
  · exact .value ((h.order.symm.body_eq (by rw [hb]; simp)).trans hb) he
  · have ho' := (h.order.outline.isObject r).symm.trans ho
    exact .field ho' (h.storage hr ho' ▸ he)

theorem restarts (hk : Restarts v r k) : Restarts w r k := by
  rcases hk with ⟨hb, hk⟩ | ⟨hb, he, hplain⟩
  · obtain ⟨items, hb', hp⟩ := h.order.symm.body_members hb
    exact .member hb' (hp.mem_iff.mp hk)
  · refine .key ((h.order.symm.body_eq (by rw [hb]; simp)).trans hb) he ?_
    rwa [isPlain, h.order.outline.atom?] at hplain

theorem reaches (hr : r ∈ S) (hc : Reaches v r c) : Reaches w r c := by
  induction hc with
  | refl => exact .refl
  | tail hreached hc ih =>
      have hy := ih.mem h.graph.toClosed hr
      exact ih.tail (hc.imp (h.inside hy) h.restarts)

end Indifferent

/-! ## Members of one text -/

section Step

variable {f f' : Active → Path → Ref → Except Fault Term}

theorem writtenItems_of_map {items items' : List Ref}
    (h : items.map (fun c q => f active q c) = items'.map fun c q => f active q c) (index : Nat) :
    writtenItems f active p index items = writtenItems f active p index items' := by
  induction items generalizing items' index with
  | nil => cases items' with
      | nil => rfl
      | cons c' rest' => cases h
  | cons c rest ih => cases items' with
      | nil => cases h
      | cons c' rest' =>
          obtain ⟨hhead, hrest⟩ := List.cons.inj h
          have hsame : ∀ q, f active q c = f active q c' := congrFun hhead
          rw [writtenItems, writtenItems, hsame, ih hrest]

/-- The text of a value that is written on its own. -/
def ownText (f : Active → Path → Ref → Except Fault Term) (r : Ref) : List Char :=
  match writtenText f r with
  | .ok text => text
  | .error _ => []

theorem writtenText_eq (h : Succeeds (writtenText f c)) : writtenText f c = .ok (ownText f c) := by
  obtain ⟨text, ht⟩ := h
  simp only [ownText, ht]

/-- Members come in any order, if those of one text are written alike. -/
theorem extends_writtenMembers {items items' : List Ref} (hp : items.Perm items')
    (halone : ∀ c ∈ items, Extends (f [] .root c) (f' [] .root c))
    (hplaces : ∀ c ∈ items, ∀ q, Extends (f active q c) (f' active q c))
    (hties : ∀ c ∈ items, ∀ c' ∈ items, ∀ text, writtenText f c = .ok text → writtenText f c' = .ok text →
      ∀ q, f active q c = f active q c') :
    Extends (writtenMembers f active p items) (writtenMembers f' active p items') := by
  intro t ht
  obtain ⟨pairs, hpairs, ht⟩ := bind_ok_iff.mp ht
  have htext {c : Ref} (hc : c ∈ items) : writtenText f c = .ok (ownText f c) :=
    writtenText_eq (succeeds_kept.mp ⟨pairs, hpairs⟩ c hc)
  have hfirst : pairs = items.map fun c => (ownText f c, c) := by
    refine mapM_eq_map hpairs fun c hc y hy => ?_
    rw [htext hc] at hy
    cases hy
    rfl
  have hsecond : (items'.mapM fun c => do return (← writtenText f' c, c)) =
      .ok (items'.map fun c => (ownText f c, c)) := by
    refine mapM_ok_map fun c hc => ?_
    have hc := hp.mem_iff.mpr hc
    rw [extends_writtenText (halone c hc) (ownText f c) (htext hc)]
    rfl
  -- The two sorted lists may differ where texts are equal, but what is written for them does not.
  have hsorted : (byText pairs).map (fun y => (y.1, fun q => f active q y.2)) =
      (byText (items'.map fun c => (ownText f c, c))).map fun y => (y.1, fun q => f active q y.2) := by
    rw [hfirst]
    refine map_byText_eq (g := fun c q => f active q c) (hp.map _) fun y hy y' hy' hkey => ?_
    obtain ⟨c, hc, rfl⟩ := List.mem_map.mp hy
    obtain ⟨c', hc', rfl⟩ := List.mem_map.mp hy'
    exact funext (hties c hc c' hc' _ (htext hc) ((htext hc').trans (congrArg Except.ok hkey.symm)))
  have hitems : ((byText pairs).map (·.2)).map (fun c q => f active q c) =
      ((byText (items'.map fun c => (ownText f c, c))).map (·.2)).map fun c q => f active q c := by
    simpa only [List.map_map, Function.comp_def] using congrArg (List.map Prod.snd) hsorted
  rw [writtenArray, writtenItems_of_map hitems] at ht
  refine bind_ok_iff.mpr ⟨_, hsecond, extends_writtenArray (fun d hd => ?_) t ht⟩
  obtain ⟨y, hy, rfl⟩ := List.mem_map.mp hd
  obtain ⟨c, hc, rfl⟩ := List.mem_map.mp (mem_byText.mp hy)
  exact hplaces c (hp.mem_iff.mpr hc)

end Step

/-! ## Whole values -/

theorem not_loops_leaf (hleaf : isLeaf w r = true) : ¬ Loops w r := by
  rintro ⟨x, k, hx, hk, -⟩
  rcases hx.cases_head with rfl | ⟨c, hc, -⟩
  · exact restarts_leaf hleaf hk
  · exact hc.elim (inside_leaf hleaf c) (restarts_leaf hleaf)

theorem isLeaf_of_isPlain (h : w.isPlain r = true) : isLeaf w r = true := by
  obtain ⟨a, ha⟩ := Option.isSome_iff_exists.mp h
  simp only [isLeaf, body_of_atom? ha]

/-- Members of one text on their own are written alike at every place. -/
theorem write_eq_of_text (hG : Graph w S) (hK : KeysClosed w S) {depth : Nat} {c c' : Ref} (hc : c ∈ S) (hc' : c' ∈ S)
    {text : List Char} (ht : writtenText (write w depth) c = .ok text) (ht' : writtenText (write w depth) c' = .ok text)
    (hout : ∀ y, active.lookup y ≠ none → ¬ Reaches w c y) (hout' : ∀ y, active.lookup y ≠ none → ¬ Reaches w c' y)
    (q : Path) : write w depth active q c = write w depth active q c' := by
  obtain ⟨t, hwritten, htext⟩ := bind_ok_iff.mp ht
  obtain ⟨t', hwritten', htext'⟩ := bind_ok_iff.mp ht'
  have hproper {c : Ref} {t : Term} (hc : c ∈ S) (h : write w depth [] .root c = .ok t) : Proper t :=
    proper_write hG hK depth (p := .root) hc trivial (fun y q hy => by cases hy) h
  have hchars : t.chars 0 0 = t'.chars 0 0 := (Except.ok.inj htext).trans (Except.ok.inj htext').symm
  have hterms : t = t' := (hproper hc hwritten).chars_inj (hproper hc' hwritten') hchars
  rw [write_at hG depth hc hout, write_at hG depth hc' hout', hwritten, hwritten', hterms]

theorem Indifferent.leafTerm (h : Indifferent w v S) (hr : r ∈ S) (hleaf : isLeaf w r = true) :
    leafTerm v r = leafTerm w r := by
  have hbody : v.body r = w.body r := h.order.body_eq fun items hb => by
    simp only [isLeaf, hb] at hleaf
    cases hleaf
  unfold Perl.leafTerm
  rw [hbody]
  cases hb : w.body r with
  | atom a => exact h.answer_atomTerm hr hb
  | cls c => simp only [info_congr h.order.outline.classes]
  | _ => rfl

theorem Indifferent.extends_writtenKey {f f' : Active → Path → Ref → Except Fault Term} (h : Indifferent w v S)
    (hr : r ∈ S) {entries : List (Ref × Ref)} (hb : w.body r = .mapping entries) {e : Ref × Ref} (he : e ∈ entries)
    (halone : Extends (f [] .root e.1) (f' [] .root e.1)) : Extends (writtenKey w f e.1) (writtenKey v f' e.1) := by
  unfold writtenKey
  rw [h.order.outline.atom?]
  cases ha : w.atom? e.1 with
  | none => exact extends_writtenText halone
  | some a =>
      cases a with
      | none => exact extends_writtenText halone
      | number n =>
          have hn := body_of_atom? ha
          have hord := h.keys.isOrdinary h.graph hr hb he hn
          have hord' : v.IsOrdinary e.1 (.number n) :=
            ⟨h.order.outline.has hord.has, (h.order.body_eq (by rw [hn]; simp)).trans hn,
              (h.order.outline.classOf e.1).trans hord.cls⟩
          simp only [(settles_textOf_number hord).answer_eq, (settles_textOf_number hord').answer_eq]
          exact .refl _
      | _ => exact .refl _

theorem Indifferent.extends_write (h : Indifferent w v S) (depth : Nat) (hr : r ∈ S) (hloop : ¬ Loops w r)
    (hactive : ∀ y, active.lookup y ≠ none → Reaches w y r) :
    Extends (write w depth active p r) (write v depth active p r) := by
  induction depth generalizing active p r with
  | zero => intro t ht; cases ht
  | succ depth ih =>
      have hG := h.graph
      rw [write, write]
      cases hleaf : isLeaf w r with
      | true =>
          have hleaf' : isLeaf v r = true := (isLeaf_outline h.order.outline r).trans hleaf
          rw [writeStep_leaf _ _ hleaf, writeStep_leaf _ _ hleaf', h.leafTerm hr hleaf]
          exact .refl _
      | false =>
          have hbody (hset : ∀ items, w.body r ≠ .members items) : v.body r = w.body r := h.order.body_eq hset
          have hback (y : Ref) (hy : ((r, p) :: active).lookup y ≠ none) : Reaches w y r := by
            by_cases hyr : y = r
            · exact hyr ▸ .refl
            · exact hactive y fun hl => hy (lookup_cons_eq_none.mpr ⟨hyr, hl⟩)
          have hbelow {c : Ref} (hc : Writes w r c) (q : Path) :
              Extends (write w depth ((r, p) :: active) q c) (write v depth ((r, p) :: active) q c) :=
            ih (hG.parts r hr c hc.part) (fun hlc => hloop (.of_reaches (.single hc) hlc))
              fun y hy => (hback y hy).tail hc
          have halone {k : Ref} (hk : Restarts w r k) : Extends (write w depth [] .root k) (write v depth [] .root k) :=
            ih (hG.parts r hr k (Writes.part (.inr hk))) (fun hlk => hloop (.of_reaches (.single (.inr hk)) hlk))
              fun y hy => absurd rfl hy
          cases hl : active.lookup r with
          | some q =>
              have hleaf' : isLeaf v r = false := (isLeaf_outline h.order.outline r).trans hleaf
              rw [writeStep_again hleaf hl, writeStep_again hleaf' hl]
              exact .refl _
          | none =>
              cases shape w r with
              | leaf hleaf' => rw [hleaf] at hleaf'; cases hleaf'
              | box hb =>
                  have hb' := (hbody (by rw [hb]; simp)).trans hb
                  rw [writeStep_box hb hl, writeStep_box hb' hl]
                  exact (hbelow (.inl (.content hb)) _).map
              | mapping hb =>
                  have hb' := (hbody (by rw [hb]; simp)).trans hb
                  rw [writeStep_mapping hb hl, writeStep_mapping hb' hl, h.typed]
                  refine (extends_writtenMapping (fun e he => h.extends_writtenKey hr hb he ?_)
                    fun e he => hbelow (.inl (.value (k := e.1) hb he))).map
                  cases hplain : w.isPlain e.1 with
                  | false => exact halone (.key (v := e.2) hb he hplain)
                  | true =>
                      exact ih (hG.key hr hb he) (not_loops_leaf (isLeaf_of_isPlain hplain)) fun y hy => absurd rfl hy
              | members hb =>
                  obtain ⟨items', hb', hp⟩ := h.order.body_members hb
                  rw [writeStep_members hb hl, writeStep_members hb' hl, h.typed]
                  have hout {c : Ref} (hc : c ∈ _) (y : Ref) (hy : ((r, p) :: active).lookup y ≠ none) :
                      ¬ Reaches w c y := fun hcy =>
                    hloop ⟨r, c, .refl, .member hb hc, hcy.trans (hback y hy)⟩
                  refine (extends_writtenMembers hp (fun c hc => halone (.member hb hc))
                    (fun c hc => hbelow (.inr (.member hb hc))) fun c hc c' hc' text ht ht' => ?_).map
                  exact write_eq_of_text hG (h.keys.keysClosed hG) (hG.member hr hb hc) (hG.member hr hb hc') ht ht'
                    (hout hc) (hout hc')
              | items hi =>
                  have hi' := (h.order.outline.items? r).trans hi
                  rw [writeStep_items hi hl, writeStep_items hi' hl, h.typed]
                  exact (extends_writtenArray fun c hc => hbelow (.inl (.item hi hc))).map
              | fields ho =>
                  have ho' := (h.order.outline.isObject r).trans ho
                  rw [writeStep_fields ho hl, writeStep_fields ho' hl, h.typed, h.storage hr ho]
                  exact (extends_writtenFields fun e he => hbelow (.inl (.field (n := e.1) ho he))).map

theorem Indifferent.settles_encode (h : Indifferent w v S) (hr : r ∈ S) (hloop : ¬ Loops w r) {indent : Int}
    {text : String} (ht : w.Settles (encode r indent) (.ok text)) : v.Settles (encode r indent) (.ok text) := by
  obtain ⟨depth, t, hwritten, htext⟩ := (settles_encode_iff h.graph hr indent text).mp ht
  have hwritten' := h.extends_write depth hr hloop (fun y hy => absurd rfl hy) t hwritten
  exact (settles_encode_iff h.graph' hr indent text).mpr ⟨depth, t, hwritten', htext⟩

def withMembers (w : World) (address : Nat) (items : List Ref) : World :=
  { w with cells := w.cells.modify address ({ · with body := .members items }) }

theorem rearranges_withMembers {i : Nat} {c : Cell} {items items' : List Ref} (hc : w.cells[i]? = some c)
    (hb : c.body = .members items) (hp : items.Perm items') : w.Rearranges (withMembers w i items') where
  rest := rfl
  cells j := by
    have hmembers : c.Rearranges { c with body := .members items' } := ⟨rfl, by rw [hb]; exact hp⟩
    rw [withMembers, Array.getElem?_modify]
    by_cases hij : i = j
    · subst hij
      rw [if_pos rfl, hc]
      exact .some hmembers
    · rw [if_neg hij]
      cases w.cells[j]? with
      | none => exact .none
      | some c' => exact .some (.refl c')

end Introspect.Perl
