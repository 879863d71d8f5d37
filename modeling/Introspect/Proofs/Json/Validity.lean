import Introspect.Proofs.Data.Runs
import Introspect.Proofs.Json.Scalars
/-!
What JSON texts of data are valid. The text of data without infinities and NaN is a value of the grammar.
Outside strings the grammar has no letter of the words that stand for the others.
-/
namespace Introspect.Json

open Grammar

variable {indent : Option Int} {level : Nat} {cs : List Char} {d : Data} {items : List Data}
  {entries : List (Data.Text × Data)}

/-! ## Blanks -/

theorem blank_nil : Blank [] := fun _ hc => absurd hc List.not_mem_nil

theorem blank_space : Blank [' '] := List.all_eq_true.mp (by decide)

theorem Grammar.Blank.append {ws ws' : List Char} (h : Blank ws) (h' : Blank ws') : Blank (ws ++ ws') := fun c hc =>
  (List.mem_append.mp hc).elim (h c) (h' c)

theorem blank_newline (indent : Option Int) (level : Nat) : Blank (newline indent level) := by
  intro c hc
  cases indent with
  | none => cases hc
  | some n =>
      rcases List.mem_cons.mp hc with rfl | hc
      · decide
      · rw [List.eq_of_mem_replicate hc]
        decide

/-- A separator is a comma and blanks. -/
theorem exists_separator (indent : Option Int) (level : Nat) :
    ∃ ws, Blank ws ∧ separator indent level = ',' :: ws := by
  cases indent with
  | none => exact ⟨[' '], blank_space, rfl⟩
  | some n => exact ⟨_, blank_newline (some n) level, rfl⟩

theorem Grammar.Element.append_blank {ws : List Char} (h : Element cs) (hws : Blank ws) : Element (cs ++ ws) := by
  obtain ⟨hbefore, hvalue, hafter⟩ := h
  rw [List.append_assoc, List.append_assoc]
  exact .spaced hbefore hvalue (hafter.append hws)

theorem Grammar.Value.element {ws : List Char} (h : Value cs) (hws : Blank ws) : Element (ws ++ cs) := by
  have helement : Element (ws ++ (cs ++ [])) := .spaced hws h blank_nil
  rwa [List.append_nil] at helement

/-! ## Texts and the texts of their parts -/

theorem chars_int_ok {i : Int} (h : chars indent level (.int i) = .ok cs) : cs = (toString i).toList := by
  rw [chars] at h
  obtain ⟨s, hs, h⟩ := bind_ok_iff.mp h
  cases h
  have hwritten : s = toString i := Atom.eq_of_written hs
  rw [hwritten]

theorem itemChars_cons_ok (h : itemChars indent level (d :: items) = .ok cs) :
    ∃ ws first others, Blank ws ∧ chars indent level d = .ok first ∧ itemChars indent level items = .ok others ∧
      cs = ',' :: (ws ++ (first ++ others)) := by
  rw [itemChars] at h
  obtain ⟨first, hfirst, h⟩ := bind_ok_iff.mp h
  obtain ⟨others, hothers, h⟩ := bind_ok_iff.mp h
  obtain ⟨ws, hws, hseparator⟩ := exists_separator indent level
  cases h
  exact ⟨ws, first, others, hws, hfirst, hothers, by simp [hseparator]⟩

theorem entryChars_cons_ok {k : Data.Text} (h : entryChars indent level ((k, d) :: entries) = .ok cs) :
    ∃ ws first others, Blank ws ∧ chars indent level d = .ok first ∧ entryChars indent level entries = .ok others ∧
      cs = ',' :: (ws ++ ((quote k.text ++ (": ".toList ++ first)) ++ others)) := by
  rw [entryChars] at h
  obtain ⟨first, hfirst, h⟩ := bind_ok_iff.mp h
  obtain ⟨others, hothers, h⟩ := bind_ok_iff.mp h
  obtain ⟨ws, hws, hseparator⟩ := exists_separator indent level
  cases h
  exact ⟨ws, first, others, hws, hfirst, hothers, by simp [hseparator]⟩

theorem chars_list_ok (h : chars indent level (.list (d :: items)) = .ok cs) :
    ∃ ws first others post, Blank ws ∧ chars indent (level + 1) d = .ok first ∧
      itemChars indent (level + 1) items = .ok others ∧ Blank post ∧
      cs = '[' :: ((ws ++ (first ++ (others ++ post))) ++ [']']) := by
  rw [chars] at h
  obtain ⟨first, hfirst, h⟩ := bind_ok_iff.mp h
  obtain ⟨others, hothers, h⟩ := bind_ok_iff.mp h
  cases h
  exact ⟨_, first, others, _, blank_newline indent (level + 1), hfirst, hothers, blank_newline indent level, by simp⟩

theorem chars_dict_ok {k : Data.Text} (h : chars indent level (.dict ((k, d) :: entries)) = .ok cs) :
    ∃ ws first others post, Blank ws ∧ chars indent (level + 1) d = .ok first ∧
      entryChars indent (level + 1) entries = .ok others ∧ Blank post ∧
      cs = '\x7b' :: ((ws ++ ((quote k.text ++ (": ".toList ++ first)) ++ (others ++ post))) ++ ['\x7d']) := by
  rw [chars] at h
  obtain ⟨first, hfirst, h⟩ := bind_ok_iff.mp h
  obtain ⟨others, hothers, h⟩ := bind_ok_iff.mp h
  cases h
  exact ⟨_, first, others, _, blank_newline indent (level + 1), hfirst, hothers, blank_newline indent level, by simp⟩

/-! ## Finite data -/

/-- No infinity and no NaN. -/
def IsFinite : Data → Prop
  | .float (.finite ..) => True
  | .float _ => False
  | _ => True

instance : DecidablePred IsFinite
  | .float .nan | .float (.infinite _) => .isFalse id
  | .float (.finite ..) | .null | .bool _ | .int _ | .text _ | .list _ | .dict _ => .isTrue trivial

theorem elements_itemChars {head post : List Char}
    (hitems : ∀ d ∈ items, ∀ cs, chars indent level d = .ok cs → Value cs)
    (h : itemChars indent level items = .ok cs) (hhead : Element head) (hpost : Blank post) :
    Elements (head ++ (cs ++ post)) := by
  induction items generalizing head cs with
  | nil =>
      cases h
      exact .single (hhead.append_blank hpost)
  | cons d rest ih =>
      obtain ⟨hd, hrest⟩ := List.forall_mem_cons.mp hitems
      obtain ⟨ws, first, others, hws, hfirst, hothers, rfl⟩ := itemChars_cons_ok h
      have helements := ih hrest hothers ((hd first hfirst).element hws)
      have hjoined : ',' :: (ws ++ (first ++ others)) ++ post = ',' :: (ws ++ first ++ (others ++ post)) := by simp
      rw [hjoined]
      exact .cons hhead helements

theorem element_entry {key : List Char} {ws : List Char} (hws : Blank ws) (hkey : IsString key) (hcs : Value cs) :
    Grammar.Member (ws ++ (key ++ (": ".toList ++ cs))) :=
  .named hws hkey blank_nil (hcs.element blank_space)

theorem Grammar.Member.append_blank {ws : List Char} (h : Grammar.Member cs) (hws : Blank ws) : Member (cs ++ ws) := by
  obtain ⟨hbefore, hname, hafter, helement⟩ := h
  have hjoined (before name after cs : List Char) : before ++ (name ++ (after ++ ':' :: cs)) ++ ws =
      before ++ (name ++ (after ++ ':' :: (cs ++ ws))) := by simp
  rw [hjoined]
  exact .named hbefore hname hafter (helement.append_blank hws)

theorem members_entryChars {head post : List Char}
    (hentries : ∀ e ∈ entries, ∀ cs, chars indent level e.2 = .ok cs → Value cs)
    (h : entryChars indent level entries = .ok cs) (hhead : Grammar.Member head) (hpost : Blank post) :
    Members (head ++ (cs ++ post)) := by
  induction entries generalizing head cs with
  | nil =>
      cases h
      exact .single (hhead.append_blank hpost)
  | cons e rest ih =>
      obtain ⟨k, d⟩ := e
      obtain ⟨hd, hrest⟩ := List.forall_mem_cons.mp hentries
      obtain ⟨ws, first, others, hws, hfirst, hothers, rfl⟩ := entryChars_cons_ok h
      have hmembers := ih hrest hothers (element_entry hws (isString_quote k.text) (hd first hfirst))
      have hjoined (member : List Char) : ',' :: (ws ++ (member ++ others)) ++ post =
          ',' :: (ws ++ member ++ (others ++ post)) := by simp
      rw [hjoined]
      exact .cons hhead hmembers

theorem value_chars (hfinite : d.Throughout IsFinite) (hforms : d.Throughout Data.HasForms)
    (h : chars indent level d = .ok cs) : Value cs := by
  induction d using Data.recursion generalizing level cs with
  | null => cases h; exact .null
  | bool b => cases b <;> cases h <;> first | exact .true | exact .false
  | int i =>
      rw [chars_int_ok h]
      exact .number (isNumber_int i)
  | float x =>
      cases h
      cases x with
      | finite negative m q => exact .number (numeral_text (hforms _ (Data.self_mem_nodes _)) negative).2.1
      | _ => exact absurd (hfinite _ (Data.self_mem_nodes _)) id
  | text t => cases h; exact .string (isString_quote t.text)
  | list items ih =>
      have hitems : ∀ d ∈ items, ∀ cs, chars indent (level + 1) d = .ok cs → Value cs := fun d hd cs h =>
        ih d hd ((Data.throughout_list.mp hfinite).2 d hd) ((Data.throughout_list.mp hforms).2 d hd) h
      cases items with
      | nil => cases h; exact .emptyArray blank_nil
      | cons d rest =>
          obtain ⟨ws, first, others, post, hws, hfirst, hothers, hpost, rfl⟩ := chars_list_ok h
          obtain ⟨hd, hrest⟩ := List.forall_mem_cons.mp hitems
          rw [← List.append_assoc ws]
          exact .array (elements_itemChars hrest hothers ((hd first hfirst).element hws) hpost)
  | dict entries ih =>
      have hentries : ∀ e ∈ entries, ∀ cs, chars indent (level + 1) e.2 = .ok cs → Value cs := fun e he cs h =>
        ih e he ((Data.throughout_dict.mp hfinite).2 e he) ((Data.throughout_dict.mp hforms).2 e he) h
      cases entries with
      | nil => cases h; exact .emptyObject blank_nil
      | cons e rest =>
          obtain ⟨k, d⟩ := e
          obtain ⟨ws, first, others, post, hws, hfirst, hothers, hpost, rfl⟩ := chars_dict_ok h
          obtain ⟨hd, hrest⟩ := List.forall_mem_cons.mp hentries
          have hmember := element_entry hws (isString_quote k.text) (hd first hfirst)
          rw [← List.append_assoc ws]
          exact .object (members_entryChars hrest hothers hmember hpost)

/-! ## Outside strings -/

/-- The characters outside strings. The flag tells whether the text starts inside one. -/
def outside : Bool → List Char → List Char
  | _, [] => []
  | false, c :: rest => if c = '"' then outside true rest else c :: outside false rest
  | true, '\\' :: _ :: rest => outside true rest
  | true, c :: rest => if c = '"' then outside false rest else outside true rest

/-- The letters that begin the words for infinities and NaN. -/
def isCapital (c : Char) : Bool := c = 'N' || c = 'I'

/-- The part of a text outside strings, whatever follows the text. -/
def Shows (cs out : List Char) : Prop := ∀ rest, outside false (cs ++ rest) = out ++ outside false rest

namespace Shows

variable {cs' out out' : List Char}

theorem eq (h : Shows cs out) : out = outside false cs := by
  have hshown := h []
  rw [List.append_nil] at hshown
  rw [hshown, outside, List.append_nil]

theorem nil : Shows [] [] := fun _ => rfl

theorem append (h : Shows cs out) (h' : Shows cs' out') : Shows (cs ++ cs') (out ++ out') := fun rest => by
  rw [List.append_assoc, h, h', List.append_assoc]

theorem of_bare (h : ∀ c ∈ cs, c ≠ '"') : Shows cs cs := by
  induction cs with
  | nil => exact nil
  | cons c cs ih =>
      obtain ⟨hc, hcs⟩ := List.forall_mem_cons.mp h
      intro rest
      rw [List.cons_append, outside, if_neg hc, ih hcs, List.cons_append]

/-- A fixed text without quotation marks. -/
theorem of_literal (h : (cs.all fun c => c ≠ '"') = true) : Shows cs cs :=
  of_bare fun c hc => of_decide_eq_true (List.all_eq_true.mp h c hc)

end Shows

theorem outside_content {content : List Char} (h : Content content) (rest : List Char) :
    outside true (content ++ '"' :: rest) = outside false rest := by
  have hplain {c : Char} {cs : List Char} (hquote : c ≠ '"') (hslash : c ≠ '\\') :
      outside true (c :: cs) = outside true cs := by
    rw [outside, if_neg hquote]
    exact fun _ _ h => absurd h hslash
  induction h with
  | nil => rfl
  | unescaped _ hquote hslash _ ih => rw [List.cons_append, hplain hquote hslash, ih]
  | escaped _ _ ih => exact ih
  | @numbered digits rest _ hdigits _ ih =>
      have hskip (cs : List Char) : outside true (digits ++ cs) = outside true cs := by
        clear * - hdigits hplain
        induction digits with
        | nil => rfl
        | cons c digits ih =>
            obtain ⟨hc, hdigits⟩ := List.forall_mem_cons.mp hdigits
            have hquote : c ≠ '"' := by rintro rfl; exact absurd hc (by decide)
            have hslash : c ≠ '\\' := by rintro rfl; exact absurd hc (by decide)
            rw [List.cons_append, hplain hquote hslash, ih hdigits]
      rw [List.cons_append, List.cons_append, List.append_assoc, outside, hskip, ih]

theorem Shows.string (h : IsString cs) : Shows cs [] := by
  obtain ⟨hcontent⟩ := h
  intro rest
  rw [List.cons_append, List.append_assoc, outside, if_pos rfl]
  exact outside_content hcontent rest

/-- Outside its strings, a valid text has none of the capitals. -/
def Plain (cs : List Char) : Prop := ∃ out, Shows cs out ∧ ∀ c ∈ out, isCapital c = false

namespace Plain

variable {cs' : List Char}

theorem append (h : Plain cs) (h' : Plain cs') : Plain (cs ++ cs') := by
  obtain ⟨out, hshows, hout⟩ := h
  obtain ⟨out', hshows', hout'⟩ := h'
  exact ⟨out ++ out', hshows.append hshows', fun c hc => (List.mem_append.mp hc).elim (hout c) (hout' c)⟩

theorem of_bare (h : ∀ c ∈ cs, c ≠ '"' ∧ isCapital c = false) : Plain cs :=
  ⟨cs, .of_bare fun c hc => (h c hc).1, fun c hc => (h c hc).2⟩

theorem of_literal (h : (cs.all fun c => c ≠ '"' ∧ isCapital c = false) = true) : Plain cs :=
  of_bare fun c hc => of_decide_eq_true (List.all_eq_true.mp h c hc)

theorem cons {c : Char} (hc : c ≠ '"' ∧ isCapital c = false) (h : Plain cs) : Plain (c :: cs) :=
  append (of_bare (List.forall_mem_singleton.mpr hc)) h

theorem blank (h : Blank cs) : Plain cs := of_bare fun c hmem => by
  have hc := h c hmem
  simp only [isBlank, Bool.or_eq_true, decide_eq_true_eq] at hc
  rcases hc with ((rfl | rfl) | rfl) | rfl <;> decide

theorem string (h : IsString cs) : Plain cs := ⟨[], .string h, fun _ hc => absurd hc List.not_mem_nil⟩

theorem digits (h : ∀ c ∈ cs, c.isDigit = true) : Plain cs := of_bare fun c hmem => by
  have hc := h c hmem
  refine ⟨?_, ?_⟩
  · rintro rfl
    exact absurd hc (by decide)
  · simp only [isCapital, Bool.or_eq_false_iff, decide_eq_false_iff_not]
    exact ⟨by rintro rfl; exact absurd hc (by decide), by rintro rfl; exact absurd hc (by decide)⟩

theorem number (h : IsNumber cs) : Plain cs := by
  obtain ⟨hsign, hwhole, -, hfraction, hexponent⟩ := h
  refine append (of_literal ?_) (append (digits hwhole.digits) (append ?_ ?_))
  · simp only [List.mem_cons, List.not_mem_nil, or_false] at hsign
    rcases hsign with rfl | rfl <;> decide
  · cases hfraction with
    | absent => exact of_bare fun c hc => absurd hc List.not_mem_nil
    | pointed h => exact cons (by decide) (digits h.digits)
  · cases hexponent with
    | absent => exact of_bare fun c hc => absurd hc List.not_mem_nil
    | power he hsign h =>
        refine cons ?_ (append (of_literal ?_) (digits h.digits))
        · simp only [List.mem_cons, List.not_mem_nil, or_false] at he
          rcases he with rfl | rfl <;> decide
        · simp only [List.mem_cons, List.not_mem_nil, or_false] at hsign
          rcases hsign with rfl | rfl | rfl <;> decide

end Plain

mutual

theorem Grammar.Value.plain {cs : List Char} (h : Value cs) : Plain cs := by
  match h with
  | .null => exact .of_literal (by decide)
  | .true => exact .of_literal (by decide)
  | .false => exact .of_literal (by decide)
  | .number h => exact .number h
  | .string h => exact .string h
  | .emptyArray h => exact .cons (by decide) ((Plain.blank h).append (.of_literal (by decide)))
  | .array h => exact .cons (by decide) (h.plain.append (.of_literal (by decide)))
  | .emptyObject h => exact .cons (by decide) ((Plain.blank h).append (.of_literal (by decide)))
  | .object h => exact .cons (by decide) (h.plain.append (.of_literal (by decide)))

theorem Grammar.Element.plain {cs : List Char} (h : Element cs) : Plain cs := by
  match h with
  | .spaced hbefore h hafter => exact (Plain.blank hbefore).append (h.plain.append (.blank hafter))

theorem Grammar.Elements.plain {cs : List Char} (h : Elements cs) : Plain cs := by
  match h with
  | .single h => exact h.plain
  | .cons h hmore => exact h.plain.append (.cons (by decide) hmore.plain)

theorem Grammar.Member.plain {cs : List Char} (h : Grammar.Member cs) : Plain cs := by
  match h with
  | .named hbefore hname hafter h =>
      exact (Plain.blank hbefore).append ((Plain.string hname).append ((Plain.blank hafter).append (.cons (by decide) h.plain)))

theorem Grammar.Members.plain {cs : List Char} (h : Members cs) : Plain cs := by
  match h with
  | .single h => exact h.plain
  | .cons h hmore => exact h.plain.append (.cons (by decide) hmore.plain)

end

/-- If something is so, the text has one of the capitals outside its strings. -/
def Tells (p : Prop) (cs : List Char) : Prop := ∃ out, Shows cs out ∧ (p → ∃ c ∈ out, isCapital c = true)

namespace Tells

variable {p q : Prop} {cs' : List Char}

theorem mono (h : Tells p cs) (hq : q → p) : Tells q cs := by
  obtain ⟨out, hshows, hout⟩ := h
  exact ⟨out, hshows, fun h => hout (hq h)⟩

theorem append (h : Tells p cs) (h' : Tells q cs') : Tells (p ∨ q) (cs ++ cs') := by
  obtain ⟨out, hshows, hout⟩ := h
  obtain ⟨out', hshows', hout'⟩ := h'
  refine ⟨out ++ out', hshows.append hshows', ?_⟩
  rintro (hp | hq)
  · obtain ⟨c, hc, hcapital⟩ := hout hp
    exact ⟨c, List.mem_append_left _ hc, hcapital⟩
  · obtain ⟨c, hc, hcapital⟩ := hout' hq
    exact ⟨c, List.mem_append_right _ hc, hcapital⟩

theorem of_bare (h : ∀ c ∈ cs, c ≠ '"') : Tells False cs := ⟨cs, .of_bare h, False.elim⟩

theorem of_literal (h : (cs.all fun c => c ≠ '"') = true) : Tells False cs := ⟨cs, .of_literal h, False.elim⟩

theorem quote (s : String) : Tells False (quote s) := ⟨[], .string (isString_quote s), False.elim⟩

theorem blank (h : Blank cs) : Tells False cs := of_bare fun c hmem => by
  rintro rfl
  exact absurd (h _ hmem) (by decide)

theorem after (h : Tells False cs) (h' : Tells q cs') : Tells q (cs ++ cs') := (h.append h').mono .inr

theorem before (h : Tells p cs) (h' : Tells False cs') : Tells p (cs ++ cs') := (h.append h').mono .inl

theorem cons {c : Char} (hc : c ≠ '"') (h : Tells p cs) : Tells p (c :: cs) :=
  after (of_bare (List.forall_mem_singleton.mpr hc)) h

theorem named (k : Data.Text) (h : Tells p cs) : Tells p (Json.quote k.text ++ (": ".toList ++ cs)) :=
  (quote k.text).after ((of_literal (by decide)).after h)

end Tells

theorem tells_itemChars (hitems : ∀ d ∈ items, ∀ cs, chars indent level d = .ok cs → Tells (¬ d.Throughout IsFinite) cs)
    (h : itemChars indent level items = .ok cs) : Tells (∃ d ∈ items, ¬ d.Throughout IsFinite) cs := by
  induction items generalizing cs with
  | nil =>
      cases h
      exact (Tells.of_bare fun c hc => absurd hc List.not_mem_nil).mono fun ⟨d, hd, _⟩ => absurd hd List.not_mem_nil
  | cons d rest ih =>
      obtain ⟨hd, hrest⟩ := List.forall_mem_cons.mp hitems
      obtain ⟨ws, first, others, hws, hfirst, hothers, rfl⟩ := itemChars_cons_ok h
      have hshown := (Tells.blank hws).after ((hd first hfirst).append (ih hrest hothers))
      exact (hshown.cons (by decide)).mono (List.exists_mem_cons_iff ..).mp

theorem tells_entryChars
    (hentries : ∀ e ∈ entries, ∀ cs, chars indent level e.2 = .ok cs → Tells (¬ e.2.Throughout IsFinite) cs)
    (h : entryChars indent level entries = .ok cs) : Tells (∃ e ∈ entries, ¬ e.2.Throughout IsFinite) cs := by
  induction entries generalizing cs with
  | nil =>
      cases h
      exact (Tells.of_bare fun c hc => absurd hc List.not_mem_nil).mono fun ⟨d, hd, _⟩ => absurd hd List.not_mem_nil
  | cons e rest ih =>
      obtain ⟨k, d⟩ := e
      obtain ⟨hd, hrest⟩ := List.forall_mem_cons.mp hentries
      obtain ⟨ws, first, others, hws, hfirst, hothers, rfl⟩ := entryChars_cons_ok h
      have hshown := (Tells.blank hws).after (((hd first hfirst).named k).append (ih hrest hothers))
      exact (hshown.cons (by decide)).mono (List.exists_mem_cons_iff ..).mp

theorem tells_chars (hforms : d.Throughout Data.HasForms) (h : chars indent level d = .ok cs) :
    Tells (¬ d.Throughout IsFinite) cs := by
  have hleaf {d : Data} (hleaf : d.isLeaf = true) (hfinite : IsFinite d) : ¬ ¬ d.Throughout IsFinite :=
    not_not_intro (Data.throughout_of_leaf hleaf hfinite)
  have hnumber {cs : List Char} (h : ∀ c ∈ cs, isNumberChar c = true) : Tells False cs := .of_bare fun c hc => by
    rintro rfl
    exact absurd (h _ hc) (by decide)
  induction d using Data.recursion generalizing level cs with
  | null => cases h; exact (Tells.of_literal (by decide)).mono (hleaf rfl trivial)
  | bool b => cases b <;> cases h <;> exact (Tells.of_literal (by decide)).mono (hleaf rfl trivial)
  | int i =>
      rw [chars_int_ok h]
      exact (hnumber (isNumberChar_int i)).mono (hleaf rfl trivial)
  | float x =>
      cases h
      cases x with
      | finite negative m q =>
          exact (hnumber (numeral_text (hforms _ (Data.self_mem_nodes _)) negative).2.2).mono (hleaf rfl trivial)
      | nan => exact ⟨_, .of_literal (by decide), fun _ => ⟨'N', by decide, rfl⟩⟩
      | infinite negative =>
          cases negative <;> exact ⟨_, .of_literal (by decide), fun _ => ⟨'I', by decide, rfl⟩⟩
  | text t => cases h; exact (Tells.quote t.text).mono (hleaf rfl trivial)
  | list items ih =>
      have hitems : ∀ d ∈ items, ∀ cs, chars indent (level + 1) d = .ok cs → Tells (¬ d.Throughout IsFinite) cs :=
        fun d hd cs h => ih d hd ((Data.throughout_list.mp hforms).2 d hd) h
      have hinner (hbad : ¬ (Data.list items).Throughout IsFinite) : ∃ d ∈ items, ¬ d.Throughout IsFinite := by
        by_contra hgood
        push Not at hgood
        exact hbad (Data.throughout_list.mpr ⟨trivial, hgood⟩)
      cases items with
      | nil => cases h; exact (Tells.of_literal (by decide)).mono fun hbad => by simpa using hinner hbad
      | cons d rest =>
          obtain ⟨ws, first, others, post, hws, hfirst, hothers, hpost, rfl⟩ := chars_list_ok h
          obtain ⟨hd, hrest⟩ := List.forall_mem_cons.mp hitems
          have hshown := (hd first hfirst).append ((tells_itemChars hrest hothers).before (.blank hpost))
          have hclose : Tells False [']'] := .of_literal (by decide)
          have hclosed := ((Tells.blank hws).after hshown).before hclose
          exact (hclosed.cons (by decide)).mono fun hbad => (List.exists_mem_cons_iff ..).mp (hinner hbad)
  | dict entries ih =>
      have hentries : ∀ e ∈ entries, ∀ cs, chars indent (level + 1) e.2 = .ok cs → Tells (¬ e.2.Throughout IsFinite) cs :=
        fun e he cs h => ih e he ((Data.throughout_dict.mp hforms).2 e he) h
      have hinner (hbad : ¬ (Data.dict entries).Throughout IsFinite) : ∃ e ∈ entries, ¬ e.2.Throughout IsFinite := by
        by_contra hgood
        push Not at hgood
        exact hbad (Data.throughout_dict.mpr ⟨trivial, hgood⟩)
      cases entries with
      | nil => cases h; exact (Tells.of_literal (by decide)).mono fun hbad => by simpa using hinner hbad
      | cons e rest =>
          obtain ⟨k, d⟩ := e
          obtain ⟨ws, first, others, post, hws, hfirst, hothers, hpost, rfl⟩ := chars_dict_ok h
          obtain ⟨hd, hrest⟩ := List.forall_mem_cons.mp hentries
          have hshown := ((hd first hfirst).named k).append ((tells_entryChars hrest hothers).before (.blank hpost))
          have hclose : Tells False ['\x7d'] := .of_literal (by decide)
          have hclosed := ((Tells.blank hws).after hshown).before hclose
          exact (hclosed.cons (by decide)).mono fun hbad => (List.exists_mem_cons_iff ..).mp (hinner hbad)

/-- The text of data is a valid one just if the data holds neither infinities nor NaN. -/
theorem isText_iff (hforms : d.Throughout Data.HasForms) (h : chars indent level d = .ok cs) :
    IsText cs ↔ d.Throughout IsFinite := by
  constructor
  · intro htext
    by_contra hbad
    obtain ⟨out, hshows, hcapital⟩ := tells_chars hforms h
    obtain ⟨out', hshows', hplain⟩ := Grammar.Element.plain htext
    obtain ⟨c, hc, hcapital⟩ := hcapital hbad
    rw [hshows.eq, ← hshows'.eq] at hc
    rw [hplain c hc] at hcapital
    cases hcapital
  · intro hfinite
    exact (value_chars hfinite hforms h).element blank_nil

end Introspect.Json
