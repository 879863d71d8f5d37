import Introspect.Proofs.Equality.Plain
/-!
Chains of comparisons of plain values. A truth value counts as its number and as its name, and so it may equal a number
and a text that are unequal. Bytes count as the text that they encode, but not next to bytes, and so a text may equal
bytes that differ. Nothing else breaks a chain.
-/
namespace Introspect.Equality

open World Perl

/-- What a value counts as where it is not compared as bytes. -/
def sensesOf : Atom → List Sense
  | .bool b => [.quantity (Number.int (if b then 1 else 0)).quantity?, .wording (Atom.boolText b)]
  | .bytes content => [senseOf (.text (Text.Utf8.decodeReplacing content))]
  | x => [senseOf x]

/-- The values count as something in common. -/
def Meets (x y : Atom) : Prop := ∃ s ∈ sensesOf x, s ∈ sensesOf y

/-- How the first value may differ from the third although both equal the second. -/
inductive Breaks : Atom → Atom → Atom → Prop
  | bytes {content content' : List UInt8} (y : Atom) : content ≠ content' → Breaks (.bytes content) y (.bytes content')
  | truth {x z : Atom} (b : Bool) : (∀ b, x ≠ .bool b) → (∀ b, z ≠ .bool b) → x.looksNumeric ≠ z.looksNumeric →
      Breaks x (.bool b) z

variable {w : World} {p q r : Ref} {x y z : Atom} {n : Number} {s t : String} {e : Bool}

/-! ## Senses -/

theorem Meets.symm (h : Meets x y) : Meets y x := by
  obtain ⟨s, hx, hy⟩ := h
  exact ⟨s, hy, hx⟩

theorem meets_self (x : Atom) : Meets x x := by
  cases x <;> exact ⟨_, List.mem_cons_self, List.mem_cons_self⟩

theorem meets_comm : Meets x y ↔ Meets y x := ⟨Meets.symm, Meets.symm⟩

theorem quantity_mem_sensesOf (hlooks : x.looksNumeric = true) (hn : x.toNumber = .ok n)
    {value : Option (Extended × Extended)} : .quantity value ∈ sensesOf x ↔ value = n.quantity? := by
  have hsense (y : Atom) (hly : y.looksNumeric = true) (hny : y.toNumber = .ok n) :
      .quantity value ∈ [senseOf y] ↔ value = n.quantity? := by
    rw [senseOf_numeric hly hny, List.mem_singleton, Sense.quantity.injEq]
  cases x with
  | none => cases hlooks
  | bool b => cases hn; simp [sensesOf]
  | number m => exact hsense _ hlooks hn
  | text s => exact hsense _ hlooks hn
  | bytes content => exact hsense (.text _) hlooks hn

/-- Numbers, and texts that look numeric, are no wordings, and so their texts are not texts that do not look numeric. -/
theorem wording_mem_sensesOf (hx : Common x) (hnx : x ≠ .none) (hs : x.plainText = .ok s)
    (ht : Numeral.looksNumeric t = false) : .wording t ∈ sensesOf x ↔ s = t := by
  have htext (u : String) : .wording t ∈ [senseOf (.text u)] ↔ u = t := by
    cases hu : Numeral.looksNumeric u with
    | true =>
        refine iff_of_false ?_ fun hut => ?_
        · simp [senseOf, Atom.looksNumeric, hu]
        · rw [hut, ht] at hu; cases hu
    | false => simp [senseOf, Atom.looksNumeric, hu, eq_comm]
  have hnumber (m : Number) (hm : Numeral.looksNumeric s = true) : .wording t ∈ [senseOf (.number m)] ↔ s = t := by
    refine iff_of_false ?_ fun hst => ?_
    · simp [senseOf, Atom.looksNumeric]
    · rw [hst, ht] at hm; cases hm
  cases hx with
  | none => exact absurd rfl hnx
  | bool b => cases hs; simp [sensesOf, eq_comm]
  | int i => exact hnumber _ (text_of_asText hs ▸ Numeral.looksNumeric_int i)
  | float m => exact hnumber _ (text_of_asText hs ▸ Numeral.looksNumeric_text m)
  | text u => cases hs; exact htext _
  | bytes content => cases hs; exact htext _

theorem looksNumeric_plainText (hnx : x ≠ .none) (hlooks : x.looksNumeric = false) (hs : x.plainText = .ok s) :
    Numeral.looksNumeric s = false ∧ sensesOf x = [.wording s] := by
  cases x with
  | none => exact absurd rfl hnx
  | bool b => cases hlooks
  | number n => cases hlooks
  | text s' => cases hs; exact ⟨hlooks, by simp [sensesOf, senseOf_text hlooks]⟩
  | bytes content => cases hs; exact ⟨hlooks, by rw [sensesOf, senseOf_text hlooks]⟩

theorem nothing_mem_sensesOf (h : .nothing ∈ sensesOf x) : x = .none := by
  have htext (s : String) : .nothing ∉ [senseOf (.text s)] := by
    cases hs : Numeral.looksNumeric s <;> simp [senseOf, Atom.looksNumeric, hs]
  cases x with
  | none => rfl
  | bool b => simp [sensesOf] at h
  | number n => simp [sensesOf, senseOf, Atom.looksNumeric] at h
  | text s => exact absurd h (htext s)
  | bytes content => exact absurd h (htext _)

theorem exists_bool_of_wording (hlooks : x.looksNumeric = true) (h : .wording t ∈ sensesOf x) :
    ∃ b, x = .bool b ∧ t = Atom.boolText b := by
  have hsense (y : Atom) (hly : y.looksNumeric = true) : .wording t ∉ [senseOf y] := by simp [senseOf, hly]
  cases x with
  | none => cases hlooks
  | bool b => exact ⟨b, rfl, by simpa [sensesOf] using h⟩
  | number n => exact absurd h (hsense _ hlooks)
  | text s => exact absurd h (hsense _ hlooks)
  | bytes content => exact absurd h (hsense (.text _) hlooks)

theorem looksNumeric_of_quantity {value : Option (Extended × Extended)} (h : .quantity value ∈ sensesOf x) :
    x.looksNumeric = true := by
  have htext (s : String) (hs : .quantity value ∈ [senseOf (.text s)]) : Numeral.looksNumeric s = true := by
    by_contra hlooks
    simp [senseOf, Atom.looksNumeric, hlooks] at hs
  cases x with
  | none => exact absurd h (by simp [sensesOf, senseOf, Atom.looksNumeric])
  | bool b => rfl
  | number n => rfl
  | text s => exact htext s h
  | bytes content => exact htext _ h

/-! ## Comparison by senses -/

theorem meets_numeric {m : Number} (hlx : x.looksNumeric = true) (hly : y.looksNumeric = true) (hm : x.toNumber = .ok m)
    (hn : y.toNumber = .ok n) : Meets x y ↔ m.quantity? = n.quantity? := by
  constructor
  · rintro ⟨s, hsx, hsy⟩
    cases s with
    | nothing =>
        cases nothing_mem_sensesOf hsx
        cases hlx
    | quantity value => exact ((quantity_mem_sensesOf hlx hm).mp hsx).symm.trans ((quantity_mem_sensesOf hly hn).mp hsy)
    | wording s =>
        obtain ⟨b, rfl, rfl⟩ := exists_bool_of_wording hlx hsx
        obtain ⟨b', rfl, htext⟩ := exists_bool_of_wording hly hsy
        cases hm
        cases hn
        cases b <;> cases b' <;> first | rfl | exact absurd htext (by decide)
  · intro h
    exact ⟨.quantity m.quantity?, (quantity_mem_sensesOf hlx hm).mpr rfl, (quantity_mem_sensesOf hly hn).mpr h⟩

theorem meets_wording (hx : Common x) (hnx : x ≠ .none) (hny : y ≠ .none) (hly : y.looksNumeric = false)
    (hs : x.plainText = .ok s) (ht : y.plainText = .ok t) : Meets x y ↔ s = t := by
  obtain ⟨hlooks, hsenses⟩ := looksNumeric_plainText hny hly ht
  rw [← wording_mem_sensesOf hx hnx hs hlooks, Meets, hsenses]
  simp

theorem eq_true_iff_meets (hx : Common x) (hy : Common y) (hb : (x.isBytes && y.isBytes) = false)
    (h : x.same y = .ok e) : e = true ↔ Meets x y := by
  by_cases hnx : x = .none
  · subst hnx
    rw [same_none_left] at h
    cases h
    rw [decide_eq_true_iff]
    constructor
    · rintro rfl
      exact ⟨.nothing, List.mem_singleton_self _, List.mem_singleton_self _⟩
    · rintro ⟨s, hs, hy⟩
      rw [List.mem_singleton.mp hs] at hy
      exact nothing_mem_sensesOf hy
  by_cases hny : y = .none
  · subst hny
    rw [same_none_right hnx] at h
    cases h
    refine iff_of_false Bool.false_ne_true ?_
    rintro ⟨s, hx, hs⟩
    rw [List.mem_singleton.mp hs] at hx
    exact hnx (nothing_mem_sensesOf hx)
  cases hlooks : x.looksNumeric && y.looksNumeric with
  | true =>
      obtain ⟨hlx, hly⟩ := Bool.and_eq_true_iff.mp hlooks
      rcases same_numeric_cases hb hlx hly hx hy with ⟨-, m, n, hm, hn, hsame⟩ | ⟨-, hfault⟩
      · cases h.symm.trans hsame
        rw [decide_eq_true_iff, meets_numeric hlx hly hm hn]
      · cases h.symm.trans hfault
  | false =>
      rcases same_wording_cases hnx hny hb hlooks with ⟨-, s, t, hs, ht, hsame⟩ | ⟨-, hfault⟩
      · cases h.symm.trans hsame
        rw [decide_eq_true_iff]
        rcases Bool.and_eq_false_iff.mp hlooks with hlx | hly
        · rw [meets_comm, meets_wording hy hny hnx hlx ht hs, eq_comm]
        · rw [meets_wording hx hnx hny hly hs ht]
      · cases h.symm.trans hfault

/-! ## Reflexivity and symmetry -/

theorem areIncomparable_comm (x y : Atom) : x.areIncomparable y = y.areIncomparable x := by
  simp only [Atom.areIncomparable, Bool.and_comm, Bool.or_comm]

theorem same_self (hx : Common x) (h : x.same x = .ok e) : e = true := by
  cases hb : x.isBytes && x.isBytes with
  | true =>
      obtain ⟨content, -, rfl, -⟩ := exists_both_bytes hb
      cases h
      exact decide_eq_true rfl
  | false => exact (eq_true_iff_meets hx hx hb h).mpr (meets_self x)

theorem same_comm (hx : Common x) (hy : Common y) : x.same y = y.same x := by
  cases hb : x.isBytes && y.isBytes with
  | true =>
      obtain ⟨content, content', rfl, rfl⟩ := exists_both_bytes hb
      rw [same_bytes, same_bytes, decide_eq_decide.mpr eq_comm]
  | false =>
      rcases same_cases hx hy with ⟨hc, e, he⟩ | ⟨hc, hfault⟩
      · rcases same_cases hy hx with ⟨hc', e', he'⟩ | ⟨hc', hfault'⟩
        · have hiff := eq_true_iff_meets hx hy hb he
          have hiff' := eq_true_iff_meets hy hx (Bool.and_comm _ _ ▸ hb) he'
          rw [he, he', Bool.eq_iff_iff.mpr (hiff.trans (meets_comm.trans hiff'.symm))]
        · rw [areIncomparable_comm, hc] at hc'
          cases hc'
      · rcases same_cases hy hx with ⟨hc', -⟩ | ⟨-, hfault'⟩
        · rw [areIncomparable_comm, hc] at hc'
          cases hc'
        · rw [hfault, hfault']

/-! ## Chains -/

/-- All but a truth value count as one thing. -/
theorem sensesOf_of_not_bool (hx : ∀ b, x ≠ .bool b) : ∃ s, sensesOf x = [s] := by
  cases x with
  | bool b => exact absurd rfl (hx b)
  | _ => exact ⟨_, rfl⟩

theorem Meets.trans (h : Meets x y) (h' : Meets y z) (hy : ∀ b, y ≠ .bool b) : Meets x z := by
  obtain ⟨u, hu⟩ := sensesOf_of_not_bool hy
  obtain ⟨s, hsx, hsy⟩ := h
  obtain ⟨t, hty, htz⟩ := h'
  rw [hu, List.mem_singleton] at hsy hty
  exact ⟨u, hsy ▸ hsx, hty ▸ htz⟩

theorem eq_of_meets_bool {b b' : Bool} (h : Meets (.bool b) (.bool b')) : b = b' := by
  obtain ⟨s, hs, hs'⟩ := h
  cases b <;> cases b' <;> first | rfl | (revert s; decide)

/-- A chain of common senses closes, other than across a truth value between values that are none. -/
theorem Meets.trans_of_not_between (h : Meets x y) (h' : Meets y z)
    (hbool : ¬ ((∃ b, y = .bool b) ∧ (∀ b, x ≠ .bool b) ∧ ∀ b, z ≠ .bool b)) : Meets x z := by
  by_cases hy : ∃ b, y = .bool b
  · obtain ⟨b, rfl⟩ := hy
    by_cases hx : ∃ b, x = .bool b
    · obtain ⟨b', rfl⟩ := hx
      rwa [eq_of_meets_bool h]
    · by_cases hz : ∃ b, z = .bool b
      · obtain ⟨b', rfl⟩ := hz
        rwa [← eq_of_meets_bool h']
      · exact absurd ⟨⟨b, rfl⟩, not_exists.mp hx, not_exists.mp hz⟩ hbool
  · exact h.trans h' (not_exists.mp hy)

/-- What has one sense in common with a truth value has its number if it looks numeric, and else its name. -/
theorem sensesOf_of_meets_bool {b : Bool} (hx : ∀ b, x ≠ .bool b) (h : Meets x (.bool b)) :
    sensesOf x = if x.looksNumeric then [.quantity (Number.int (if b then 1 else 0)).quantity?]
      else [.wording (Atom.boolText b)] := by
  obtain ⟨u, hu⟩ := sensesOf_of_not_bool hx
  obtain ⟨s, hsx, hsb⟩ := h
  have hs : s = u := by simpa [hu] using hsx
  rcases List.mem_pair.mp hsb with hquantity | hwording
  · rw [hquantity] at hsx
    rw [looksNumeric_of_quantity hsx, if_pos rfl, hu, ← hs, hquantity]
  · rw [hwording] at hsx
    have hlooks : x.looksNumeric = false := by
      by_contra hlooks
      obtain ⟨b', hb', -⟩ := exists_bool_of_wording (Bool.not_eq_false _ ▸ hlooks) hsx
      exact hx b' hb'
    rw [hlooks, if_neg Bool.false_ne_true, hu, ← hs, hwording]

theorem meets_iff_of_bool {b : Bool} (hx : ∀ b, x ≠ .bool b) (hz : ∀ b, z ≠ .bool b) (h : Meets x (.bool b))
    (h' : Meets (.bool b) z) : Meets x z ↔ x.looksNumeric = z.looksNumeric := by
  rw [Meets, sensesOf_of_meets_bool hx h, sensesOf_of_meets_bool hz h'.symm]
  cases x.looksNumeric <;> cases z.looksNumeric <;> simp

theorem eq_of_same_bytes {content content' : List UInt8} (h : (Atom.bytes content).same (.bytes content') = .ok true) :
    content = content' :=
  of_decide_eq_true (Except.ok.inj h)

theorem breaks_bytes_iff {content content' : List UInt8} : Breaks (.bytes content) y (.bytes content') ↔
    content ≠ content' := by
  refine ⟨fun h heq => ?_, .bytes y⟩
  subst heq
  cases h with
  | bytes _ hne => exact hne rfl
  | truth b _ _ hlooks => exact hlooks rfl

/-- Where the ends are not both bytes, only a truth value in the middle breaks the chain. -/
theorem breaks_iff_of_not_bytes (hb : (x.isBytes && z.isBytes) = false) : Breaks x y z ↔
    (∃ b, y = .bool b) ∧ (∀ b, x ≠ .bool b) ∧ (∀ b, z ≠ .bool b) ∧ x.looksNumeric ≠ z.looksNumeric := by
  constructor
  · intro h
    cases h with
    | bytes _ hne => cases hb
    | truth b hx hz hlooks => exact ⟨⟨b, rfl⟩, hx, hz, hlooks⟩
  · rintro ⟨⟨b, rfl⟩, hx, hz, hlooks⟩
    exact .truth b hx hz hlooks

theorem eq_or_meets (hx : Common x) (hy : Common y) (h : x.same y = .ok true) : x = y ∨ Meets x y := by
  cases hb : x.isBytes && y.isBytes with
  | true =>
      obtain ⟨content, content', rfl, rfl⟩ := exists_both_bytes hb
      exact .inl (congrArg _ (eq_of_same_bytes h))
  | false => exact .inr ((eq_true_iff_meets hx hy hb h).mp rfl)

theorem same_trans_iff (hx : Common x) (hy : Common y) (hz : Common z) (hxy : x.same y = .ok true)
    (hyz : y.same z = .ok true) (h : x.same z = .ok e) : e = true ↔ ¬ Breaks x y z := by
  cases hb : x.isBytes && z.isBytes with
  | true =>
      obtain ⟨content, content', rfl, rfl⟩ := exists_both_bytes hb
      cases h
      rw [decide_eq_true_iff, breaks_bytes_iff, not_not]
  | false =>
      rw [breaks_iff_of_not_bytes hb, eq_true_iff_meets hx hz hb h]
      rcases eq_or_meets hx hy hxy with rfl | hmxy
      · exact iff_of_true ((eq_true_iff_meets hx hz hb hyz).mp rfl) fun ⟨⟨b, hb⟩, hbool, _⟩ => hbool b hb
      rcases eq_or_meets hy hz hyz with rfl | hmyz
      · exact iff_of_true hmxy fun ⟨⟨b, hb⟩, _, hbool, _⟩ => hbool b hb
      by_cases hbool : (∃ b, y = .bool b) ∧ (∀ b, x ≠ .bool b) ∧ ∀ b, z ≠ .bool b
      · obtain ⟨⟨b, rfl⟩, hbx, hbz⟩ := hbool
        simp [meets_iff_of_bool hbx hbz hmxy hmyz, hbx, hbz]
      · refine iff_of_true (hmxy.trans_of_not_between hmyz hbool) fun hbreaks => hbool ?_
        exact ⟨hbreaks.1, hbreaks.2.1, hbreaks.2.2.1⟩

/-- Comparison is reflexive and symmetric, and the ends of a chain are equal exactly if nothing breaks it: they are not
two different bytes, and it is not so that a truth value stands between a number and a wording. -/
theorem plainEqual_chains (hp : w.IsOrdinary p x) (hq : w.IsOrdinary q y) (hr : w.IsOrdinary r z) (hx : Common x)
    (hy : Common y) (hz : Common z) :
    (∀ p', w.IsOrdinary p' x → ∀ e, w.Settles (Conversion.plainEqual p p') (.ok e) → e = true) ∧
      (∀ res, w.Settles (Conversion.plainEqual p q) res ↔ w.Settles (Conversion.plainEqual q p) res) ∧
      (w.Settles (Conversion.plainEqual p q) (.ok true) → w.Settles (Conversion.plainEqual q r) (.ok true) →
        ∀ e, w.Settles (Conversion.plainEqual p r) (.ok e) → (e = true ↔ ¬ Breaks x y z)) := by
  refine ⟨?refl, ?symm, ?trans⟩
  case refl =>
    intro p' hp' e h
    exact same_self hx ((settles_same_iff hp hp').mp h)
  case symm =>
    intro res
    rw [settles_same_iff hp hq, settles_same_iff hq hp, same_comm hx hy]
  case trans =>
    intro hpq hqr e hpr
    rw [settles_same_iff hp hq] at hpq
    rw [settles_same_iff hq hr] at hqr
    rw [settles_same_iff hp hr] at hpr
    exact same_trans_iff hx hy hz hpq hqr hpr

/-- Two numerals of one number are equal. -/
theorem plainEqual_chains_numerals :
    Session.initialWorld.Settles (Conversion.plainEqual (textRef "1") (textRef "1.0")) (.ok true) := by
  have hordinary (a : Atom) := IsOrdinary.atom Session.initialWorld a
  have hsettles (x y : Atom) (e : Bool) (h : x.same y = .ok e) :=
    (settles_same_iff (hordinary x) (hordinary y)).mpr h
  obtain ⟨-, -, hchain⟩ := plainEqual_chains (hordinary (.text "1")) (hordinary (Atom.int 1)) (hordinary (.text "1.0"))
    (.text _) (.int 1) (.text _)
  obtain ⟨e, he⟩ : ∃ e, (Atom.text "1").same (.text "1.0") = .ok e := ⟨true, by decide⟩
  have hclosed := (hchain (hsettles _ _ _ (by decide)) (hsettles _ _ _ (by decide)) e (hsettles _ _ _ he)).mpr
    (by rintro ⟨⟩)
  exact hsettles _ _ _ (hclosed ▸ he)

theorem not_plainEqual_chains_truth :
    answered (Conversion.plainEqual (textRef "True") (.atom (.bool true))) Session.initialWorld = some true ∧
      answered (Conversion.plainEqual (.atom (.bool true)) (intRef 1)) Session.initialWorld = some true ∧
      answered (Conversion.plainEqual (textRef "True") (intRef 1)) Session.initialWorld = some false := by
  decide +kernel

end Introspect.Equality
