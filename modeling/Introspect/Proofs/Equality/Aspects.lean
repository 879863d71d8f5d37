import Introspect.Proofs.Equality.Bisimulation
import Introspect.Proofs.Equality.Senses
import Introspect.Proofs.Perl.Backreferences
import Introspect.Proofs.Reflect.Order
/-!
What a comparison looks at in a reference: what a plain value counts as, the content of a box, items in their order,
or fields by name. Matching aspects are turned round and composed with the relations of their parts.
-/
namespace Introspect.Equality

open World Perl

/-- Fields belong to a mapping or to an object of the class. -/
inductive Aspect where
  | value (s : Sense)
  | content (c : Ref)
  | items (xs : List Ref)
  | fields (cls : Option ClassId) (pairs : List (String × Ref))

namespace Aspect

/-- Each field of the first stands under the same name in the second, where the relation holds of the values. -/
def FieldsIn (R : Ref → Ref → Prop) (xs ys : List (String × Ref)) : Prop :=
  ∀ e ∈ xs, ∃ y, ys.lookup e.1 = some y ∧ R e.2 y

/-- Aspects of one kind, with parts that the relation holds of. -/
inductive Matches (R : Ref → Ref → Prop) : Aspect → Aspect → Prop
  | value {s t : Sense} : s = t → Matches R (.value s) (.value t)
  | content {c d : Ref} : R c d → Matches R (.content c) (.content d)
  | items {xs ys : List Ref} : List.Forall₂ R xs ys → Matches R (.items xs) (.items ys)
  | fields {cls cls' : Option ClassId} {xs ys : List (String × Ref)} : cls = cls' → xs.length = ys.length →
      FieldsIn R xs ys → Matches R (.fields cls xs) (.fields cls' ys)

/-- At most one field of each name. -/
def Distinct : Aspect → Prop
  | .fields _ pairs => Pairs.Distinct pairs
  | _ => True

def parts : Aspect → List Ref
  | .value _ => []
  | .content c => [c]
  | .items xs => xs
  | .fields _ pairs => pairs.map (·.2)

variable {R Q : Ref → Ref → Prop} {s t u : Aspect} {xs ys zs : List (String × Ref)}

theorem forall₂_imp_of_mem {cs ds : List Ref} (h : List.Forall₂ R cs ds) (hRQ : ∀ c ∈ cs, ∀ d ∈ ds, R c d → Q c d) :
    List.Forall₂ Q cs ds := by
  induction h with
  | nil => exact .nil
  | cons hcd _ ih =>
      refine .cons (hRQ _ List.mem_cons_self _ List.mem_cons_self hcd) (ih fun c hc d hd => ?_)
      exact hRQ c (List.mem_cons_of_mem _ hc) d (List.mem_cons_of_mem _ hd)

theorem forall₂_comp {cs ds es : List Ref} (h : List.Forall₂ R cs ds) (h' : List.Forall₂ Q ds es) :
    List.Forall₂ (Relation.Comp R Q) cs es := by
  induction h generalizing es with
  | nil => cases h'; exact .nil
  | cons hcd _ ih =>
      cases h' with
      | cons hde hrest => exact .cons ⟨_, hcd, hde⟩ (ih hrest)

theorem FieldsIn.imp (hRQ : ∀ e ∈ xs, ∀ y, R e.2 y → Q e.2 y) (h : FieldsIn R xs ys) : FieldsIn Q xs ys :=
  fun e he => (h e he).imp fun y hy => hy.imp_right (hRQ e he y)

theorem FieldsIn.refl (hR : ∀ e ∈ xs, R e.2 e.2) (hd : Pairs.Distinct xs) : FieldsIn R xs xs := fun e he =>
  ⟨e.2, (Pairs.mem_iff_lookup hd).mp he, hR e he⟩

/-- Two lists of as many fields have the same names if one has all names of the other. -/
theorem FieldsIn.flip (hx : Pairs.Distinct xs) (hy : Pairs.Distinct ys) (hl : xs.length = ys.length)
    (h : FieldsIn R xs ys) : FieldsIn (Function.swap R) ys xs := by
  have hnames : xs.map (·.1) ⊆ ys.map (·.1) := fun name hname => by
    obtain ⟨e, he, rfl⟩ := List.mem_map.mp hname
    obtain ⟨y, hlookup, -⟩ := h e he
    exact List.mem_map.mpr ⟨(e.1, y), Pairs.mem_of_lookup hlookup, rfl⟩
  have hperm : (xs.map (·.1)).Perm (ys.map (·.1)) :=
    (hx.subperm hnames).perm_of_length_le (by simp [hl])
  intro e' he'
  obtain ⟨e, he, hname⟩ := List.mem_map.mp (hperm.symm.subset (List.mem_map_of_mem (f := Prod.fst) he'))
  obtain ⟨y, hlookup, hR⟩ := h e he
  have hvalue := (Pairs.mem_iff_lookup (k := e'.1) (v := e'.2) hy).mp he'
  rw [hname, hvalue] at hlookup
  cases hlookup
  exact ⟨e.2, hname ▸ (Pairs.mem_iff_lookup hx).mp he, hR⟩

theorem FieldsIn.comp (h : FieldsIn R xs ys) (h' : FieldsIn Q ys zs) : FieldsIn (Relation.Comp R Q) xs zs := by
  intro e he
  obtain ⟨y, hlookup, hR⟩ := h e he
  obtain ⟨z, hz, hQ⟩ := h' (e.1, y) (Pairs.mem_of_lookup hlookup)
  exact ⟨z, hz, y, hR, hQ⟩

namespace Matches

theorem imp (h : Matches R s t) (hRQ : ∀ c ∈ s.parts, ∀ d ∈ t.parts, R c d → Q c d) : Matches Q s t := by
  cases h with
  | value hs => exact .value hs
  | content hc => exact .content (hRQ _ List.mem_cons_self _ List.mem_cons_self hc)
  | items hi => exact .items (forall₂_imp_of_mem hi hRQ)
  | fields hcls hl hf =>
      refine .fields hcls hl fun e he => ?_
      obtain ⟨y, hlookup, hR⟩ := hf e he
      have hmem := List.mem_map_of_mem (f := Prod.snd) (Pairs.mem_of_lookup hlookup)
      exact ⟨y, hlookup, hRQ e.2 (List.mem_map_of_mem (f := Prod.snd) he) y hmem hR⟩

theorem refl (hR : ∀ c ∈ s.parts, R c c) (hd : s.Distinct) : Matches R s s := by
  cases s with
  | value s => exact .value rfl
  | content c => exact .content (hR c List.mem_cons_self)
  | items xs => exact .items (List.forall₂_same.mpr hR)
  | fields cls pairs =>
      exact .fields rfl rfl (.refl (fun e he => hR e.2 (List.mem_map_of_mem (f := Prod.snd) he)) hd)

theorem flip (hs : s.Distinct) (ht : t.Distinct) (h : Matches R s t) : Matches (Function.swap R) t s := by
  cases h with
  | value h => exact .value h.symm
  | content hc => exact .content hc
  | items hi => exact .items hi.flip
  | fields hcls hl hf => exact .fields hcls.symm hl.symm (hf.flip hs ht hl)

theorem comp (h : Matches R s t) (h' : Matches Q t u) : Matches (Relation.Comp R Q) s u := by
  cases h with
  | value hs =>
      cases h' with
      | value ht => exact .value (hs.trans ht)
  | content hc =>
      cases h' with
      | content hd => exact .content ⟨_, hc, hd⟩
  | items hi =>
      cases h' with
      | items hi' => exact .items (forall₂_comp hi hi')
  | fields hcls hl hf =>
      cases h' with
      | fields hcls' hl' hf' => exact .fields (hcls.trans hcls') (hl.trans hl') (hf.comp hf')

end Matches

end Aspect

/-! ## Aspects of references -/

/-- The kinds of values: nothing, integers, floating-point numbers and texts of the host's own classes, sequences,
mappings and boxes of any class, and objects with an attribute dictionary whose class overloads nothing. Instances of
classes below the numbers are not such objects, as they are plain values, and streams have no attributes to compare. -/
inductive Kind (w : World) (r : Ref) : Prop where
  | value {x : Atom} : Basic x → w.body r = .atom x → w.classOf r = .native (atomClass x) → Kind w r
  | sequence {items : List Ref} : w.body r = .sequence items → Kind w r
  | mapping {entries : List (Ref × Ref)} : w.body r = .mapping entries → Kind w r
  | box {c : Ref} {t : Bool} : w.body r = .box c t → Kind w r
  | object {index : Nat} : w.isObject r = true → w.classOf r = .declared index →
      w.isInstance r .numeric = false → w.overloads (w.classOf r) = .none → w.refType? r = some .hash → Kind w r

/-- A graph of such values whose mappings have texts for keys, and whose plain values compare without raising. -/
structure Comparable (w : World) (S : List Ref) : Prop where
  graph : Graph w S
  kinds : ∀ r ∈ S, Kind w r
  keys : TextKeys w S
  compares : ∀ x ∈ S, ∀ y ∈ S, w.isPlain x = true → w.isPlain y = true →
    ∃ e, w.Settles (Conversion.plainEqual x y) (.ok e)

/-- The entries of a mapping by the texts of their keys. -/
def textFields (w : World) (entries : List (Ref × Ref)) : List (String × Ref) :=
  entries.map fun e => ((text? w e.1).getD "", e.2)

noncomputable def aspect (w : World) (r : Ref) : Aspect :=
  match w.body r with
  | .atom x => .value (senseOf x)
  | .box c _ => .content c
  | .sequence items => .items items
  | .mapping entries => .fields none (textFields w entries)
  | _ => .fields (some (w.classOf r)) (w.storage r)

variable {w : World} {S : List Ref} {R : Ref → Ref → Prop} {a b r k : Ref} {x : Atom}

theorem text?_of_body {s : String} (h : w.body r = .atom (.text s)) : text? w r = some s := by
  simp only [text?, h]

/-! ## Plain values -/

theorem settles_plainEqual {y : Atom} (ha : w.IsOrdinary a x) (hb : w.IsOrdinary b y) :
    w.Settles (Conversion.plainEqual a b) (formsEqual x (comparedText w a x) y (comparedText w b y)) := by
  have htext {r : Ref} {x : Atom} (hr : w.IsOrdinary r x) (n : Nat) (hn : 2 ≤ n) :
      (w.limited n).Steady (Conversion.comparisonText r) (comparedText w r x) := by
    have hg := w.grows_limited n
    have hcompared : comparedText (w.limited n) r x = comparedText w r x := by
      cases x <;> first | rfl | exact Dispatch.plainTextOf_grows hr.has hg
    rw [← hcompared]
    exact steady_comparisonText hn (hg.has hr.has) (hr.grows hg).body
      (Dispatch.hasNativeText_of_isOrdinary (hr.grows hg))
  refine Filter.eventually_atTop.mpr ⟨2, fun n hn => ?_⟩
  have hg := w.grows_limited n
  exact steady_plainEqual (hg.has ha.has) (ha.grows hg).body (htext ha n hn) (hg.has hb.has) (hb.grows hg).body
    (htext hb n hn)

theorem settles_compareForms_of_isOrdinary {y : Atom} (ha : w.IsOrdinary a x) (hb : w.IsOrdinary b y) :
    w.Settles (compareForms a b) (formsEqual x (comparedText w a x) y (comparedText w b y)) :=
  settles_compareForms ha.has hb.has
    (formIs_of_hasNativeText ha.has ha.body (Dispatch.hasNativeText_of_isOrdinary ha))
    (formIs_of_hasNativeText hb.has hb.body (Dispatch.hasNativeText_of_isOrdinary hb))

/-! ## Text keys -/

/-- Looking for a text among text keys finds the entry of that text. -/
theorem entryFor?_eq_some_iff {s : String} {entries : List (Ref × Ref)} (hk : w.body k = .atom (.text s))
    (htexts : ∀ e ∈ entries, ∃ s, w.body e.1 = .atom (.text s)) (v : Ref) :
    (∃ e, w.entryFor? k entries = some e ∧ e.2 = v) ↔ (textFields w entries).lookup s = some v := by
  induction entries with
  | nil => simp [entryFor?, textFields]
  | cons e rest ih =>
      obtain ⟨s', hs'⟩ := htexts e List.mem_cons_self
      have ih := ih fun e he => htexts e (List.mem_cons_of_mem _ he)
      rw [entryFor?, textFields] at ih ⊢
      rw [List.map_cons, List.lookup_cons, text?_of_body hs', Option.getD_some]
      by_cases hs : s' = s
      · subst hs
        simp [List.find?_cons_of_pos, sameKey_of_text hs' hk]
      · simp only [List.find?_cons, not_sameKey_of_text hs' hk hs, decide_false,
          beq_eq_false_iff_ne.mpr (Ne.symm hs), ih]

theorem fieldsIn_textFields {xs ys : List (Ref × Ref)} (hx : ∀ e ∈ xs, ∃ s, w.body e.1 = .atom (.text s))
    (hy : ∀ e ∈ ys, ∃ s, w.body e.1 = .atom (.text s)) :
    Aspect.FieldsIn R (textFields w xs) (textFields w ys) ↔
      ∀ e ∈ xs, ∃ e', w.entryFor? e.1 ys = some e' ∧ R e.2 e'.2 := by
  rw [Aspect.FieldsIn, textFields, List.forall_mem_map]
  refine forall₂_congr fun e he => ?_
  obtain ⟨s, hs⟩ := hx e he
  simp only [text?_of_body hs, Option.getD_some, ← entryFor?_eq_some_iff hs hy]
  constructor
  · rintro ⟨_, ⟨e', he', rfl⟩, hR⟩
    exact ⟨e', he', hR⟩
  · rintro ⟨e', he', hR⟩
    exact ⟨e'.2, ⟨e', he', rfl⟩, hR⟩

theorem length_textFields (entries : List (Ref × Ref)) : (textFields w entries).length = entries.length :=
  List.length_map _

theorem distinct_textFields (hK : TextKeys w S) {entries : List (Ref × Ref)} (hr : r ∈ S)
    (hb : w.body r = .mapping entries) : Pairs.Distinct (textFields w entries) := by
  rw [Pairs.Distinct, textFields, List.map_map, List.Nodup, List.pairwise_map]
  refine (hK.distinct r hr entries hb).imp_of_mem fun {e e'} he he' hdiffer hsame => ?_
  obtain ⟨s, hs⟩ := hK.texts r hr entries hb e he
  obtain ⟨s', hs'⟩ := hK.texts r hr entries hb e' he'
  simp only [Function.comp, text?_of_body hs, text?_of_body hs', Option.getD_some] at hsame
  exact hdiffer (sameKey_of_text hs (hsame ▸ hs'))

/-! ## Reading aspects -/

theorem aspect_value (h : w.body r = .atom x) : aspect w r = .value (senseOf x) := by simp only [aspect, h]

theorem aspect_box {c : Ref} {t : Bool} (h : w.body r = .box c t) : aspect w r = .content c := by simp only [aspect, h]

theorem aspect_sequence {items : List Ref} (h : w.body r = .sequence items) : aspect w r = .items items := by
  simp only [aspect, h]

theorem aspect_mapping {entries : List (Ref × Ref)} (h : w.body r = .mapping entries) :
    aspect w r = .fields none (textFields w entries) := by
  simp only [aspect, h]

theorem aspect_object (h : w.isObject r = true) : aspect w r = .fields (some (w.classOf r)) (w.storage r) := by
  unfold isObject at h
  unfold aspect
  cases hb : w.body r <;> first | rfl | (rw [hb] at h; cases h)

theorem items?_of_body {items : List Ref} (h : w.body r = .sequence items) : w.items? r = some items := by
  simp only [items?, h]

theorem isPlain_of_body (h : w.body r = .atom x) : w.isPlain r = true := by
  simp only [isPlain, atom?, h, Option.isSome_some]

theorem hasForm_of_body (h : w.body r = .atom x) : hasForm w r = true := by
  rw [hasForm, isPlain_of_body h, Bool.true_or]

theorem hasForm_of_object (h : w.isObject r = true) (hc : converts w r = false) : hasForm w r = false := by
  unfold isObject at h
  unfold hasForm isPlain atom?
  rw [hc, Bool.or_false]
  cases hb : w.body r <;> first | rfl | (rw [hb] at h; cases h)

/-- How a reference comes by its aspect. -/
inductive Shows (w : World) (r : Ref) : Aspect → Prop
  | value {x : Atom} : Basic x → w.body r = .atom x → w.classOf r = .native (atomClass x) →
      Shows w r (.value (senseOf x))
  | content {c : Ref} {t : Bool} : w.body r = .box c t → Shows w r (.content c)
  | items {items : List Ref} : w.body r = .sequence items → Shows w r (.items items)
  | entries {entries : List (Ref × Ref)} : w.body r = .mapping entries →
      Shows w r (.fields none (textFields w entries))
  | object : w.isObject r = true → w.refType? r = some .hash → converts w r = false →
      Shows w r (.fields (some (w.classOf r)) (w.storage r))

theorem Kind.shows (h : Kind w r) : Shows w r (aspect w r) := by
  cases h with
  | value hx hb hc => exact aspect_value hb ▸ .value hx hb hc
  | sequence hb => exact aspect_sequence hb ▸ .items hb
  | mapping hb => exact aspect_mapping hb ▸ .entries hb
  | box hb => exact aspect_box hb ▸ .content hb
  | object hb _ _ ho hk =>
      refine aspect_object hb ▸ .object hb hk ?_
      simp [converts, ho, Overloads.none]

namespace Shows

variable {s t : Aspect}

theorem isOrdinary (h : Shows w r s) (hr : w.Has r) (hb : w.body r = .atom x) : Basic x ∧ w.IsOrdinary r x := by
  cases h with
  | value hx hb' hc => rw [hb'] at hb; cases hb; exact ⟨hx, hr, hb', hc⟩
  | content hb' | items hb' | entries hb' => rw [hb'] at hb; cases hb
  | object ho => rw [isObject, hb] at ho; cases ho

theorem body_of_items {items : List Ref} (h : Shows w r s) (hi : w.items? r = some items) :
    w.body r = .sequence items := by
  cases h with
  | items hb => rw [items?, hb] at hi; cases hi; exact hb
  | value _ hb | content hb | entries hb => rw [items?, hb] at hi; cases hi
  | object ho => rw [isObject_of_items hi] at ho; cases ho

theorem exists_body_of_hasForm (h : Shows w r s) (hf : hasForm w r = true) : ∃ x, w.body r = .atom x := by
  cases h with
  | value _ hb => exact ⟨_, hb⟩
  | content hb => rw [hasForm_of_box hb] at hf; cases hf
  | items hb => rw [hasForm_of_items (items?_of_body hb)] at hf; cases hf
  | entries hb => rw [hasForm_of_mapping hb] at hf; cases hf
  | object hb _ hc => rw [hasForm_of_object hb hc] at hf; cases hf

end Shows

/-! ## Alike references -/

namespace Comparable

variable (hw : Comparable w S)
include hw

theorem shows (hr : r ∈ S) : Shows w r (aspect w r) := (hw.kinds r hr).shows

theorem exists_isOrdinary (hr : r ∈ S) (hf : hasForm w r = true) :
    ∃ x, Basic x ∧ w.IsOrdinary r x := by
  obtain ⟨x, hb⟩ := (hw.shows hr).exists_body_of_hasForm hf
  exact ⟨x, (hw.shows hr).isOrdinary (hw.graph.has r hr) hb⟩

/-- Plain values compare, and are equal exactly if they count as the same. -/
theorem settles_forms {y : Atom} (ha : a ∈ S) (hb : b ∈ S) (hx : Basic x ∧ w.IsOrdinary a x)
    (hy : Basic y ∧ w.IsOrdinary b y) :
    ∃ e, w.Settles (compareForms a b) (.ok e) ∧ (e = true ↔ senseOf x = senseOf y) := by
  obtain ⟨e, he⟩ := hw.compares a ha b hb (isPlain_of_body hx.2.body) (isPlain_of_body hy.2.body)
  have hequal := (settles_plainEqual hx.2 hy.2).unique he
  have hforms := settles_compareForms_of_isOrdinary hx.2 hy.2
  rw [hequal] at hforms
  exact ⟨e, hforms, formsEqual_iff hx.2 hy.2 hx.1 hy.1 hequal⟩

theorem alike_of_matches (ha : a ∈ S) (hb : b ∈ S) (h : (aspect w a).Matches R (aspect w b)) : Alike w R a b := by
  have hsa := hw.shows ha
  have hsb := hw.shows hb
  generalize aspect w a = s at hsa h
  generalize aspect w b = t at hsb h
  cases h with
  | value hsense =>
      cases hsa with
      | value hx hba hca =>
          cases hsb with
          | value hy hbb hcb =>
              obtain ⟨e, he, hiff⟩ := hw.settles_forms ha hb ⟨hx, hw.graph.has a ha, hba, hca⟩
                ⟨hy, hw.graph.has b hb, hbb, hcb⟩
              rw [hiff.mpr hsense] at he
              exact .forms (hasForm_of_body hba) (hasForm_of_body hbb) he
  | content hR =>
      cases hsa with
      | content hba =>
          cases hsb with
          | content hbb => exact .boxes hba hbb hR
  | items hR =>
      cases hsa with
      | items hba =>
          cases hsb with
          | items hbb => exact .sequences (items?_of_body hba) (items?_of_body hbb) hR
  | fields hcls hl hf =>
      cases hsa with
      | entries hba =>
          cases hsb with
          | entries hbb =>
              rw [length_textFields, length_textFields] at hl
              rw [fieldsIn_textFields (hw.keys.texts a ha _ hba) (hw.keys.texts b hb _ hbb)] at hf
              exact .mappings hba hbb hl hf
          | object hbb => cases hcls
      | object hba hka hca =>
          cases hsb with
          | entries hbb => cases hcls
          | object hbb hkb hcb =>
              refine .objects (hasForm_of_object hba hca) (hasForm_of_object hbb hcb) hba (Option.some.inj hcls) hka hkb
                (.inl rfl) hl hf

theorem matches_of_alike (ha : a ∈ S) (hb : b ∈ S) (hne : a ≠ b) (h : Alike w R a b) :
    (aspect w a).Matches R (aspect w b) := by
  have hsa := hw.shows ha
  have hsb := hw.shows hb
  cases h with
  | same h => exact absurd h hne
  | forms hfa hfb hequal =>
      obtain ⟨x, hx⟩ := hw.exists_isOrdinary ha hfa
      obtain ⟨y, hy⟩ := hw.exists_isOrdinary hb hfb
      obtain ⟨e, he, hiff⟩ := hw.settles_forms ha hb hx hy
      cases hequal.unique he
      rw [aspect_value hx.2.body, aspect_value hy.2.body]
      exact .value (hiff.mp rfl)
  | boxes hba hbb hR =>
      rw [aspect_box hba, aspect_box hbb]
      exact .content hR
  | sequences hia hib hR =>
      rw [aspect_sequence (hsa.body_of_items hia), aspect_sequence (hsb.body_of_items hib)]
      exact .items hR
  | mappings hba hbb hl hf =>
      rw [aspect_mapping hba, aspect_mapping hbb]
      refine .fields rfl (by rw [length_textFields, length_textFields, hl]) ?_
      exact (fieldsIn_textFields (hw.keys.texts a ha _ hba) (hw.keys.texts b hb _ hbb)).mpr hf
  | objects _ _ hoa hc _ _ _ hl hf =>
      have hob : w.isObject b = true := (hw.graph.layout a ha b hb hc).symm.trans hoa
      rw [aspect_object hoa, aspect_object hob]
      exact .fields (congrArg some hc) hl hf

/-- Two values are alike exactly if they are the same or their aspects match. -/
theorem alike_iff (ha : a ∈ S) (hb : b ∈ S) : Alike w R a b ↔ a = b ∨ (aspect w a).Matches R (aspect w b) := by
  refine ⟨fun h => (em (a = b)).imp_right fun hne => hw.matches_of_alike ha hb hne h, fun h => ?_⟩
  exact h.elim .same (hw.alike_of_matches ha hb)

theorem distinct (hr : r ∈ S) : (aspect w r).Distinct := by
  have hs := hw.shows hr
  generalize aspect w r = s at hs
  cases hs with
  | value | content | items => trivial
  | entries hb => exact distinct_textFields hw.keys hr hb
  | object hb hk hc =>
      obtain ⟨pairs, hpairs⟩ := hw.graph.storage r hr hb (hasForm_of_object hb hc)
      rw [Aspect.Distinct, storage_eq hpairs]
      exact distinct_of_fields hpairs

theorem mem_of_parts {c : Ref} (hr : r ∈ S) (hc : c ∈ (aspect w r).parts) : c ∈ S := by
  have hs := hw.shows hr
  refine hw.graph.parts r hr c (.inl ?_)
  generalize aspect w r = s at hs hc
  cases hs with
  | value => cases hc
  | content hb => cases List.mem_singleton.mp hc; exact .content hb
  | items hb => exact .item (items?_of_body hb) hc
  | entries hb =>
      obtain ⟨p, hp, rfl⟩ := List.mem_map.mp hc
      obtain ⟨e, he, rfl⟩ := List.mem_map.mp hp
      exact .value (k := e.1) hb he
  | object hb =>
      obtain ⟨e, he, rfl⟩ := List.mem_map.mp hc
      exact .field (n := e.1) hb he

end Comparable

end Introspect.Equality
