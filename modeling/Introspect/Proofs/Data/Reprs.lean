import Introspect.Proofs.Data.Nodes
import Introspect.Proofs.Number.Spelling
import Introspect.Proofs.Text.Quoted
/-!
Displays of data show the data. Only the classes of texts are not to be seen in them: data with one display are
the same up to those. In front of what may follow it inside a container, a display shows where it ends.
-/
namespace Introspect.Data

variable {d d' : Data} {cs cs' rest rest' : List Char}

/-! ## What may follow -/

def isDelimiter (c : Char) : Bool := c = ',' || c = ']' || c = '\x7d'

/-- The text is over, or goes on as a container may. -/
def Stops (rest : List Char) : Prop := ∀ c, rest.head? = some c → isDelimiter c = true

theorem stops_cons {c : Char} (h : isDelimiter c = true) : Stops (c :: rest) := fun x hx => by
  cases hx
  exact h

/-! ## Words and numbers -/

/-- The plain value whose display is one word that the data are displayed as. -/
def word? : Data → Option Atom
  | .null => some .none
  | .bool b => some (.bool b)
  | .int i => some (Atom.int i)
  | .float x => some (.number (.float x))
  | _ => none

/-- The word that a plain value is displayed as. -/
def wordText : Atom → String
  | .none => "None"
  | .bool b => Atom.boolText b
  | .number n => n.text
  | _ => ""

theorem display_of_word? {a : Atom} (h : d.word? = some a) : d.display = a.display := by
  cases d <;> cases h <;> rfl

theorem isWord_of_word? {a : Atom} (hd : d.HasForms) (h : d.word? = some a) : a.IsWord := by
  cases d <;> cases h
  · trivial
  · trivial
  · trivial
  · exact hd

theorem word?_inj {a : Atom} (h : d.word? = some a) (h' : d'.word? = some a) : d = d' := by
  cases d <;> cases h <;> cases d' <;> cases h' <;> rfl

theorem eq_wordText {a : Atom} {s : String} (ha : a.IsWord) (h : a.display = .ok s) : s = wordText a := by
  cases a with
  | none | bool b =>
      cases h
      rfl
  | number n => exact (Atom.eq_of_written h).trans (Number.display_eq_text ha)
  | _ => exact absurd ha id

theorem wordText_ne_nil {a : Atom} (ha : a.IsWord) : (wordText a).toList ≠ [] := by
  cases a with
  | none => decide
  | bool b => cases b <;> decide
  | number n =>
      have hempty : Numeral.looksNumeric "" = false := by decide
      exact fun h => Number.text_ne_word ha hempty (String.toList_inj.mp h)
  | _ => exact absurd ha id

/-- Words of one display are the same. -/
theorem word_inj {a a' : Atom} {s : String} (ha : a.IsWord) (ha' : a'.IsWord) (h : a.display = .ok s)
    (h' : a'.display = .ok s) : a = a' :=
  Atom.word_inj (fun _ => rfl) (by decide) (by decide) ha ha' ((eq_wordText ha h).symm.trans (eq_wordText ha' h'))

def isWordChar (c : Char) : Bool := c.isAlphanum || c = '-' || c = '+' || c = '.'

theorem isWordChar_number {n : Number} (h : n.IsPrimitive) {c : Char} (hc : c ∈ n.text.toList) : isWordChar c = true := by
  have hdigit {c : Char} (h : c.isDigit = true) : isWordChar c = true := by simp [isWordChar, Char.isAlphanum, h]
  cases n with
  | int i =>
      rw [Number.text, Numeral.toList_int] at hc
      rcases Numeral.isDigit_or_dash hc with rfl | hc
      · decide
      · exact hdigit hc
  | float x =>
      cases x with
      | nan => exact List.all_eq_true.mp (by decide) c hc
      | infinite negative => cases negative <;> exact List.all_eq_true.mp (by decide) c hc
      | finite negative m q =>
          have hmarks : ∀ c ∈ ['.', 'e', '+', '-'], isWordChar c = true := List.all_eq_true.mp (by decide)
          exact (Numeral.cases_of_mem_text h hc).elim hdigit (hmarks c)
  | _ => exact absurd h id

/-- A word is made of its characters, none of which may follow it. -/
theorem isWordChar_wordText {a : Atom} (ha : a.IsWord) {c : Char} (hc : c ∈ (wordText a).toList) : isWordChar c = true := by
  cases a with
  | none => exact List.all_eq_true.mp (by decide) c hc
  | bool b => cases b <;> exact List.all_eq_true.mp (by decide) c hc
  | number n => exact isWordChar_number ha hc
  | _ => exact absurd ha id

theorem isDelimiter_of_isWordChar {c : Char} (h : isWordChar c = true) : isDelimiter c = false := by
  simp only [isDelimiter, Bool.or_eq_false_iff, decide_eq_false_iff_not]
  refine ⟨⟨?_, ?_⟩, ?_⟩ <;> (rintro rfl; exact absurd h (by decide))

/-- Words end where something else may follow. -/
theorem words_end (hcs : ∀ c ∈ cs, isWordChar c = true) (hcs' : ∀ c ∈ cs', isWordChar c = true) (hrest : Stops rest)
    (hrest' : Stops rest') (h : cs ++ rest = cs' ++ rest') : cs = cs' ∧ rest = rest' := by
  have htake {cs rest : List Char} (hcs : ∀ c ∈ cs, isWordChar c = true) (hrest : Stops rest) :
      (cs ++ rest).takeWhile isWordChar = cs := by
    rw [List.takeWhile_append_of_pos hcs]
    cases rest with
    | nil => simp
    | cons c more =>
        have hstop := hrest c rfl
        have hc : isWordChar c = false := by
          by_contra hc
          rw [isDelimiter_of_isWordChar (Bool.not_eq_false _ ▸ hc)] at hstop
          cases hstop
        rw [List.takeWhile_cons_of_neg (by simp [hc]), List.append_nil]
  have hsame : cs = cs' := by rw [← htake hcs hrest, h, htake hcs' hrest']
  exact ⟨hsame, List.append_cancel_left (hsame ▸ h)⟩

/-! ## Sequences -/

section Sequences

variable {α β : Type} {shows : α → List Char → Prop} {g : α → β} {xs xs' : List α} {css css' : List (List Char)} {close : Char}

/-- In front of what may follow, the display of the element shows what it is up to a function, and where it ends. -/
def Legible (shows : α → List Char → Prop) (g : α → β) (x : α) : Prop :=
  ∀ ⦃x' cs cs' rest rest'⦄, shows x cs → shows x' cs' → Stops rest → Stops rest' → cs ++ rest = cs' ++ rest' →
    g x = g x' ∧ rest = rest'

/-- Each text behind a comma and a blank. -/
def following (css : List (List Char)) : List Char := css.flatMap fun cs => ',' :: ' ' :: cs

def joined : List (List Char) → List Char
  | [] => []
  | cs :: more => cs ++ following more

theorem intercalate_eq_joined (css : List (List Char)) : ", ".toList.intercalate css = joined css := by
  induction css with
  | nil => rfl
  | cons cs more ih =>
      cases more with
      | nil => simp [joined, following]
      | cons cs' more =>
          rw [List.intercalate_cons_cons, ih, List.append_assoc]
          rfl

theorem stops_following (css : List (List Char)) (hclose : isDelimiter close = true) (rest : List Char) :
    Stops (following css ++ close :: rest) := by
  cases css with
  | nil => exact stops_cons hclose
  | cons cs more => exact stops_cons (by decide)

theorem following_legible (hclose : isDelimiter close = true) (hcomma : close ≠ ',') (hxs : ∀ x ∈ xs, Legible shows g x)
    (h : List.Forall₂ shows xs css) (h' : List.Forall₂ shows xs' css')
    (heq : following css ++ close :: rest = following css' ++ close :: rest') : xs.map g = xs'.map g ∧ rest = rest' := by
  induction h generalizing xs' css' with
  | nil =>
      cases h' with
      | nil => exact ⟨rfl, (List.cons.inj heq).2⟩
      | cons _ _ => exact absurd (List.cons.inj heq).1 hcomma
  | @cons x cs xs css hx _ ih =>
      obtain ⟨hlegible, hxs⟩ := List.forall_mem_cons.mp hxs
      cases h' with
      | nil => exact absurd (List.cons.inj heq).1.symm hcomma
      | @cons x' cs' xs' css' hx' hrest' =>
          rw [following, following, List.flatMap_cons, List.flatMap_cons] at heq
          have hbehind : cs ++ (following css ++ close :: rest) = cs' ++ (following css' ++ close :: rest') := by
            simpa [following] using heq
          obtain ⟨hfirst, hbehind⟩ := hlegible hx hx' (stops_following css hclose rest) (stops_following css' hclose rest') hbehind
          obtain ⟨hmore, hrest⟩ := ih hxs hrest' hbehind
          exact ⟨by rw [List.map_cons, List.map_cons, hfirst, hmore], hrest⟩

theorem joined_legible (hclose : isDelimiter close = true) (hcomma : close ≠ ',')
    (hstarts : ∀ x cs, shows x cs → ∃ c more, cs = c :: more ∧ isDelimiter c = false) (hxs : ∀ x ∈ xs, Legible shows g x)
    (h : List.Forall₂ shows xs css) (h' : List.Forall₂ shows xs' css')
    (heq : joined css ++ close :: rest = joined css' ++ close :: rest') : xs.map g = xs'.map g ∧ rest = rest' := by
  have hopen {x : α} {cs more rest rest' : List Char} (hx : shows x cs) : close :: rest ≠ (cs ++ more) ++ rest' := fun heq => by
    obtain ⟨c, tail, rfl, hc⟩ := hstarts x cs hx
    rw [← (List.cons.inj heq).1, hclose] at hc
    cases hc
  cases h with
  | nil =>
      cases h' with
      | nil => exact ⟨rfl, (List.cons.inj heq).2⟩
      | cons hx' _ => exact absurd heq (hopen hx')
  | @cons x cs xs css hx hrest =>
      cases h' with
      | nil => exact absurd heq.symm (hopen hx)
      | @cons x' cs' xs' css' hx' hrest' =>
          obtain ⟨hlegible, hxs⟩ := List.forall_mem_cons.mp hxs
          rw [joined, joined, List.append_assoc, List.append_assoc] at heq
          obtain ⟨hfirst, heq⟩ := hlegible hx hx' (stops_following css hclose rest) (stops_following css' hclose rest') heq
          obtain ⟨hmore, hrest⟩ := following_legible hclose hcomma hxs hrest hrest' heq
          exact ⟨by rw [List.map_cons, List.map_cons, hfirst, hmore], hrest⟩

end Sequences

/-! ## Displays -/

/-- The data, whose numbers are in their forms, are displayed as the characters. -/
def IsShown (d : Data) (cs : List Char) : Prop := d.Throughout HasForms ∧ ∃ s, d.display = .ok s ∧ cs = s.toList

def IsShownEntry (e : Text × Data) (cs : List Char) : Prop :=
  ∃ shown, IsShown e.2 shown ∧ cs = (Text.quoted e.1.text).toList ++ (':' :: ' ' :: shown)

theorem displayEntries_eq (entries : List (Text × Data)) : displayEntries entries =
    entries.mapM fun e => do return Text.quoted e.1.text ++ ": " ++ (← e.2.display) := by
  induction entries with
  | nil => rfl
  | cons e rest ih =>
      obtain ⟨k, d⟩ := e
      rw [displayEntries, ih, List.mapM_cons]
      simp only [bind_assoc, pure_bind]

/-- The display of a container puts brackets around the displays of what it contains. -/
theorem toList_bracketed (opening closing : Char) (parts : List String) :
    (String.ofList [opening] ++ ", ".intercalate parts ++ String.ofList [closing]).toList =
      opening :: (joined (parts.map String.toList) ++ [closing]) := by
  rw [String.toList_append, String.toList_append, String.toList_intercalate, intercalate_eq_joined, String.toList_ofList,
    String.toList_ofList, List.singleton_append, List.cons_append]

theorem isShown_list {items : List Data} (h : IsShown (.list items) cs) :
    ∃ css, List.Forall₂ IsShown items css ∧ cs = '[' :: (joined css ++ [']']) := by
  obtain ⟨hforms, s, hs, rfl⟩ := h
  rw [display, Lower.displayItems_eq] at hs
  obtain ⟨parts, hparts, hs⟩ := bind_ok_iff.mp hs
  cases hs
  refine ⟨parts.map String.toList, ?_, toList_bracketed '[' ']' parts⟩
  rw [List.forall₂_map_right_iff]
  exact forall₂_mapM hparts fun d hd s hs => ⟨(throughout_list.mp hforms).2 d hd, s, hs, rfl⟩

theorem isShown_dict {entries : List (Text × Data)} (h : IsShown (.dict entries) cs) :
    ∃ css, List.Forall₂ IsShownEntry entries css ∧ cs = '\x7b' :: (joined css ++ ['\x7d']) := by
  obtain ⟨hforms, s, hs, rfl⟩ := h
  rw [display, displayEntries_eq] at hs
  obtain ⟨parts, hparts, hs⟩ := bind_ok_iff.mp hs
  cases hs
  refine ⟨parts.map String.toList, ?_, toList_bracketed '\x7b' '\x7d' parts⟩
  rw [List.forall₂_map_right_iff]
  refine forall₂_mapM hparts fun e he s hshown => ?_
  obtain ⟨value, hvalue, hs⟩ := bind_ok_iff.mp hshown
  cases hs
  refine ⟨value.toList, ⟨(throughout_dict.mp hforms).2 e he, value, hvalue, rfl⟩, ?_⟩
  rw [String.toList_append, String.toList_append, List.append_assoc]
  rfl

/-- What the first character of a display tells: a word, a list, a mapping or a text. -/
def lead (c : Char) : Nat := if isWordChar c then 0 else if c = '[' then 1 else if c = '\x7b' then 2 else 3

def kind : Data → Nat
  | .list _ => 1
  | .dict _ => 2
  | .text _ => 3
  | _ => 0

theorem exists_lead (h : IsShown d cs) : ∃ c more, cs = c :: more ∧ lead c = d.kind ∧ isDelimiter c = false := by
  have hword {a : Atom} (hw : d.word? = some a) (hkind : d.kind = 0) :
      ∃ c more, cs = c :: more ∧ lead c = d.kind ∧ isDelimiter c = false := by
    obtain ⟨hforms, s, hs, rfl⟩ := h
    have ha := isWord_of_word? (hforms d d.self_mem_nodes) hw
    rw [display_of_word? hw] at hs
    rw [eq_wordText ha hs]
    obtain ⟨c, more, hcs⟩ := List.exists_cons_of_ne_nil (wordText_ne_nil ha)
    have hc := isWordChar_wordText ha (hcs ▸ List.mem_cons_self)
    exact ⟨c, more, hcs, by rw [lead, if_pos hc, hkind], isDelimiter_of_isWordChar hc⟩
  cases d with
  | text t =>
      obtain ⟨-, s, hs, rfl⟩ := h
      cases hs
      refine ⟨_, _, Text.toList_quoted t.text, ?_⟩
      rw [kind]
      rcases Text.isQuote_quoteFor t.text.toList with hq | hq <;> rw [hq] <;> decide
  | list items =>
      obtain ⟨css, -, rfl⟩ := isShown_list h
      exact ⟨'[', _, rfl, by rw [kind]; decide⟩
  | dict entries =>
      obtain ⟨css, -, rfl⟩ := isShown_dict h
      exact ⟨'\x7b', _, rfl, by rw [kind]; decide⟩
  | _ => exact hword rfl rfl

theorem kind_eq (h : IsShown d cs) (h' : IsShown d' cs') (heq : cs ++ rest = cs' ++ rest') : d'.kind = d.kind := by
  obtain ⟨c, more, rfl, hlead, -⟩ := exists_lead h
  obtain ⟨c', more', rfl, hlead', -⟩ := exists_lead h'
  rw [← hlead, ← hlead', (List.cons.inj heq).1]

theorem exists_word (h : d.kind = 0) : ∃ a, d.word? = some a := by
  cases d <;> first | exact ⟨_, rfl⟩ | cases h

theorem legible_word {a : Atom} (hw : d.word? = some a) (hkind : d.kind = 0) : Legible IsShown plain d := by
  intro d' cs cs' rest rest' hd hd' hrest hrest' heq
  obtain ⟨a', hw'⟩ := exists_word ((kind_eq hd hd' heq).trans hkind)
  obtain ⟨hforms, s, hs, rfl⟩ := hd
  obtain ⟨hforms', s', hs', rfl⟩ := hd'
  have ha := isWord_of_word? (hforms d d.self_mem_nodes) hw
  have ha' := isWord_of_word? (hforms' d' d'.self_mem_nodes) hw'
  rw [display_of_word? hw] at hs
  rw [display_of_word? hw'] at hs'
  rw [eq_wordText ha hs, eq_wordText ha' hs'] at heq
  obtain ⟨hsame, hrest⟩ := words_end (fun c => isWordChar_wordText ha) (fun c => isWordChar_wordText ha') hrest hrest' heq
  have hs_eq : s = s' := (eq_wordText ha hs).trans ((String.toList_inj.mp hsame).trans (eq_wordText ha' hs').symm)
  exact ⟨congrArg plain (word?_inj hw (word_inj ha ha' hs (hs_eq ▸ hs') ▸ hw')), hrest⟩

theorem starts_isShown (d : Data) (cs : List Char) (h : IsShown d cs) : ∃ c more, cs = c :: more ∧ isDelimiter c = false := by
  obtain ⟨c, more, hcs, -, hc⟩ := exists_lead h
  exact ⟨c, more, hcs, hc⟩

theorem starts_isShownEntry (e : Text × Data) (cs : List Char) (h : IsShownEntry e cs) :
    ∃ c more, cs = c :: more ∧ isDelimiter c = false := by
  obtain ⟨shown, -, rfl⟩ := h
  rw [Text.toList_quoted]
  refine ⟨_, _, rfl, ?_⟩
  rcases Text.isQuote_quoteFor e.1.text.toList with hq | hq <;> rw [hq] <;> decide

/-- A key is quoted, so that its end shows, and so does that of the value. -/
theorem legible_entry {e : Text × Data} (h : Legible IsShown plain e.2) :
    Legible IsShownEntry (fun e => (Text.plain e.1.text, e.2.plain)) e := by
  rintro e' cs cs' rest rest' ⟨shown, hshown, rfl⟩ ⟨shown', hshown', rfl⟩ hrest hrest' heq
  rw [List.append_assoc, List.append_assoc] at heq
  obtain ⟨hkey, hvalues⟩ := Text.quoted_inj heq
  have hvalues : shown ++ rest = shown' ++ rest' := by simpa using hvalues
  obtain ⟨hvalue, hrest⟩ := h hshown hshown' hrest hrest' hvalues
  exact ⟨Prod.ext (congrArg Text.plain hkey) hvalue, hrest⟩

theorem legible (d : Data) : Legible IsShown plain d := by
  induction d using Data.recursion with
  | text t =>
      intro d' cs cs' rest rest' hd hd' hrest hrest' heq
      cases d' with
      | text t' =>
          obtain ⟨-, s, hs, rfl⟩ := hd
          obtain ⟨-, s', hs', rfl⟩ := hd'
          cases hs
          cases hs'
          obtain ⟨htext, hrest⟩ := Text.quoted_inj heq
          exact ⟨by rw [plain, plain, htext], hrest⟩
      | _ => cases kind_eq hd hd' heq
  | list items ih =>
      intro d' cs cs' rest rest' hd hd' hrest hrest' heq
      cases d' with
      | list items' =>
          obtain ⟨css, hcss, rfl⟩ := isShown_list hd
          obtain ⟨css', hcss', rfl⟩ := isShown_list hd'
          have hinner : joined css ++ ']' :: rest = joined css' ++ ']' :: rest' := by simpa using heq
          obtain ⟨hitems, hrest⟩ := joined_legible (by decide) (by decide) starts_isShown ih hcss hcss' hinner
          exact ⟨by rw [plain, plain, plainItems_eq, plainItems_eq, hitems], hrest⟩
      | _ => cases kind_eq hd hd' heq
  | dict entries ih =>
      intro d' cs cs' rest rest' hd hd' hrest hrest' heq
      cases d' with
      | dict entries' =>
          obtain ⟨css, hcss, rfl⟩ := isShown_dict hd
          obtain ⟨css', hcss', rfl⟩ := isShown_dict hd'
          have hinner : joined css ++ '\x7d' :: rest = joined css' ++ '\x7d' :: rest' := by simpa using heq
          obtain ⟨hentries, hrest⟩ := joined_legible (by decide) (by decide) starts_isShownEntry
            (fun e he => legible_entry (ih e he)) hcss hcss' hinner
          exact ⟨by rw [plain, plain, plainEntries_eq, plainEntries_eq, hentries], hrest⟩
      | _ => cases kind_eq hd hd' heq
  | _ => exact legible_word rfl rfl

/-- Data of one display are the same up to the classes of texts. -/
theorem plain_eq_of_display {s : String} (hd : d.Throughout HasForms) (hd' : d'.Throughout HasForms) (h : d.display = .ok s)
    (h' : d'.display = .ok s) : d.plain = d'.plain := by
  have hnil : Stops [] := fun c hc => by cases hc
  exact (legible d ⟨hd, s, h, rfl⟩ ⟨hd', s, h', rfl⟩ hnil hnil rfl).1

end Introspect.Data
