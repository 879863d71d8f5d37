import Introspect.Proofs.Data.Cycles
import Introspect.Proofs.Json.Validity
/-!
JSON texts of data are read back. What is lost is only the class of a text.
-/
namespace Introspect.Json

variable {indent : Option Int} {level : Nat} {cs rest : List Char} {d : Data} {items : List Data}
  {entries : List (Data.Text × Data)}

/-! ## Sequences -/

theorem skipBlanks_append {ws : List Char} (h : Grammar.Blank ws) (cs : List Char) :
    skipBlanks (ws ++ cs) = skipBlanks cs :=
  List.dropWhile_append_of_pos h

theorem skipBlanks_cons {c : Char} (h : isBlank c = false) : skipBlanks (c :: cs) = c :: cs :=
  List.dropWhile_cons_of_neg (by simp [h])

/-- Nothing in front that could belong to a number. -/
def Closes (rest : List Char) : Prop := ∀ c, rest.head? = some c → isNumberChar c = false

/-- What a value, or a member, begins with. -/
def Starts (cs : List Char) : Prop := ∃ c more, cs = c :: more ∧ isBlank c = false ∧ c ∉ [']', '\x7d']

/-- An item is read back whatever closes it. -/
structure Reads {α : Type} (item? : List Char → Option (α × List Char)) (cs : List Char) (x : α) : Prop where
  starts : Starts cs
  read : ∀ rest, Closes rest → item? (cs ++ rest) = some (x, rest)

section Sequences

variable {α : Type} {item? : List Char → Option (α × List Char)} {close : Char} {x : α} {xs : List α}

/-- Items that follow others: before each stands a separator. -/
inductive Follows (item? : List Char → Option (α × List Char)) : List Char → List α → Prop where
  | nil : Follows item? [] []
  | cons {ws cs more x xs} : Grammar.Blank ws → Reads item? cs x → Follows item? more xs →
      Follows item? (',' :: (ws ++ (cs ++ more))) (x :: xs)

/-- A character that may close a sequence. -/
def IsClosing (close : Char) : Prop := close = ']' ∨ close = '\x7d'

theorem Starts.skipBlanks (h : Starts cs) (rest : List Char) : skipBlanks (cs ++ rest) = cs ++ rest := by
  obtain ⟨c, more, rfl, hblank, -⟩ := h
  exact skipBlanks_cons hblank

/-- What an item begins with counts: a bound on the length is at least one. -/
theorem Starts.exists_succ {bound : Nat} (h : Starts cs) (hbound : cs.length ≤ bound) : ∃ n, bound = n + 1 := by
  obtain ⟨c, more, rfl, -⟩ := h
  exact Nat.exists_eq_add_one_of_ne_zero (by simp at hbound; omega)

theorem closes_append_close {post : List Char} (hclose : IsClosing close) (hpost : Grammar.Blank post) (rest : List Char) :
    Closes (post ++ close :: rest) := by
  intro c hc
  cases post with
  | nil =>
      cases hc
      rcases hclose with rfl | rfl <;> decide
  | cons b post =>
      cases hc
      have hblank := hpost c List.mem_cons_self
      simp only [isBlank, Bool.or_eq_true, decide_eq_true_eq] at hblank
      rcases hblank with ((rfl | rfl) | rfl) | rfl <;> decide

theorem sequence?_blank {ws : List Char} (hws : Grammar.Blank ws) (bound : Nat) (cs : List Char) :
    sequence? close item? bound (ws ++ cs) = sequence? close item? bound cs := by
  cases bound with
  | zero => rfl
  | succ bound => rw [sequence?, sequence?, skipBlanks_append hws]

/-- Items are read up to what closes them. -/
theorem sequence?_follows {more post : List Char} {bound : Nat} (hclose : IsClosing close) (hx : Reads item? cs x)
    (hmore : Follows item? more xs) (hpost : Grammar.Blank post) (hbound : (cs ++ more).length ≤ bound) (rest : List Char) :
    sequence? close item? bound (cs ++ (more ++ (post ++ close :: rest))) = some (x :: xs, rest) := by
  obtain ⟨hcomma, hblank⟩ : close ≠ ',' ∧ isBlank close = false := by rcases hclose with rfl | rfl <;> decide
  induction hmore generalizing cs x bound with
  | nil =>
      obtain ⟨bound, rfl⟩ := hx.starts.exists_succ (Nat.le_trans (List.length_append ▸ Nat.le_add_right ..) hbound)
      rw [sequence?, hx.starts.skipBlanks, List.nil_append, hx.read _ (closes_append_close hclose hpost rest)]
      simp only [Option.bind_eq_bind, Option.bind_some, skipBlanks_append hpost, skipBlanks_cons hblank, if_pos]
      rfl
  | @cons ws cs' more x' xs hws hx' hfollows ih =>
      obtain ⟨bound, rfl⟩ := hx.starts.exists_succ (Nat.le_trans (List.length_append ▸ Nat.le_add_right ..) hbound)
      have hrest : Closes (',' :: (ws ++ (cs' ++ more)) ++ (post ++ close :: rest)) := by
        intro c hc
        cases hc
        decide
      have hskip : skipBlanks (',' :: (ws ++ (cs' ++ more)) ++ (post ++ close :: rest)) =
          ',' :: (ws ++ (cs' ++ more) ++ (post ++ close :: rest)) := skipBlanks_cons (by decide)
      have hnext : sequence? close item? bound (ws ++ (cs' ++ more) ++ (post ++ close :: rest)) = some (x' :: xs, rest) := by
        rw [List.append_assoc, sequence?_blank hws, List.append_assoc]
        exact ih hx' (by simp only [List.length_append, List.length_cons] at hbound ⊢; omega)
      rw [sequence?, hx.starts.skipBlanks, hx.read _ hrest]
      simp only [Option.bind_eq_bind, Option.bind_some, hskip, if_neg (Ne.symm hcomma), if_pos, hnext]
      rfl

theorem contained?_follows {ws more post : List Char} (hclose : IsClosing close) (hws : Grammar.Blank ws)
    (hx : Reads item? cs x) (hmore : Follows item? more xs) (hpost : Grammar.Blank post) (rest : List Char) :
    contained? close item? (ws ++ (cs ++ (more ++ (post ++ close :: rest)))) = some (x :: xs, rest) := by
  have hhead : (cs ++ (more ++ (post ++ close :: rest))).head? ≠ some close := by
    obtain ⟨c, tail, rfl, -, hc⟩ := hx.starts
    intro h
    cases h
    rcases hclose with rfl | rfl <;> simp at hc
  rw [contained?, skipBlanks_append hws, hx.starts.skipBlanks, if_neg hhead]
  exact sequence?_follows hclose hx hmore hpost (by simp only [List.length_append]; omega) rest

theorem contained?_empty (hclose : IsClosing close) (rest : List Char) :
    contained? close item? (close :: rest) = some ([], rest) := by
  have hblank : isBlank close = false := by rcases hclose with rfl | rfl <;> decide
  rw [contained?, skipBlanks_cons hblank]
  exact if_pos rfl

end Sequences

/-! ## Values -/

/-- A number that a text can have is finite and in its one form; no mapping has a key twice. -/
structure IsReadable (d : Data) : Prop where
  finite : d.Throughout IsFinite
  forms : d.Throughout Data.HasForms
  distinct : d.Throughout Data.HasDistinctKeys

namespace IsReadable

theorem item (h : IsReadable (.list items)) (hd : d ∈ items) : IsReadable d :=
  ⟨(Data.throughout_list.mp h.finite).2 d hd, (Data.throughout_list.mp h.forms).2 d hd,
    (Data.throughout_list.mp h.distinct).2 d hd⟩

theorem entry {e : Data.Text × Data} (h : IsReadable (.dict entries)) (he : e ∈ entries) : IsReadable e.2 :=
  ⟨(Data.throughout_dict.mp h.finite).2 e he, (Data.throughout_dict.mp h.forms).2 e he,
    (Data.throughout_dict.mp h.distinct).2 e he⟩

end IsReadable

theorem exists_head_of_isNumber (h : Grammar.IsNumber cs) : ∃ c more, cs = c :: more ∧ (c = '-' ∨ c.isDigit = true) := by
  obtain ⟨hsign, hwhole, -, -, -⟩ := h
  simp only [List.mem_cons, List.not_mem_nil, or_false] at hsign
  rcases hsign with rfl | rfl
  · obtain ⟨c, more, hcons⟩ := List.exists_cons_of_ne_nil hwhole.nonempty
    exact ⟨c, _, by rw [hcons]; rfl, .inr (hwhole.digits c (hcons ▸ List.mem_cons_self))⟩
  · exact ⟨'-', _, rfl, .inl rfl⟩

theorem starts_of_value (h : Grammar.Value cs) : Starts cs := by
  cases h with
  | number h =>
      obtain ⟨c, more, rfl, hc⟩ := exists_head_of_isNumber h
      refine ⟨c, more, rfl, ?_⟩
      have hne {x : Char} (hx : x ≠ '-' ∧ x.isDigit = false) : c ≠ x := by
        rintro rfl
        exact hc.elim hx.1 fun hc => by rw [hx.2] at hc; cases hc
      simp [isBlank, hne (x := ' ') (by decide), hne (x := '\t') (by decide), hne (x := '\n') (by decide),
        hne (x := '\r') (by decide), hne (x := ']') (by decide), hne (x := '\x7d') (by decide)]
  | string h =>
      obtain ⟨-⟩ := h
      exact ⟨'"', _, rfl, by decide⟩
  | null => exact ⟨'n', _, rfl, by decide⟩
  | true => exact ⟨'t', _, rfl, by decide⟩
  | false => exact ⟨'f', _, rfl, by decide⟩
  | emptyArray _ => exact ⟨'[', _, rfl, by decide⟩
  | array _ => exact ⟨'[', _, rfl, by decide⟩
  | emptyObject _ => exact ⟨'\x7b', _, rfl, by decide⟩
  | object _ => exact ⟨'\x7b', _, rfl, by decide⟩

theorem value?_number {depth : Nat} (h : Grammar.IsNumber cs) (hchars : ∀ c ∈ cs, isNumberChar c = true)
    (hread : numeral? cs = some d) (hrest : Closes rest) : value? (depth + 1) (cs ++ rest) = some (d, rest) := by
  obtain ⟨c, more, rfl, hc⟩ := exists_head_of_isNumber h
  have hne (x : Char) (hx : x ≠ '-' ∧ x.isDigit = false) : c ≠ x := by
    rintro rfl
    exact hc.elim hx.1 fun hc => by rw [hx.2] at hc; cases hc
  obtain ⟨htake, hdrop⟩ := span_eq hchars hrest
  rw [List.cons_append] at htake hdrop ⊢
  rw [value?, if_neg (hne '"' (by decide)), if_neg (hne '[' (by decide)), if_neg (hne '\x7b' (by decide)),
    if_neg (hne 'n' (by decide)), if_neg (hne 't' (by decide)), if_neg (hne 'f' (by decide)), htake, hdrop, hread]
  rfl

theorem follows_itemChars {depth : Nat}
    (hitems : ∀ d ∈ items, ∀ cs, chars indent level d = .ok cs → cs.length ≤ depth → Reads (value? depth) cs d.plain)
    (h : itemChars indent level items = .ok cs) (hdepth : cs.length ≤ depth) :
    Follows (value? depth) cs (items.map Data.plain) := by
  induction items generalizing cs with
  | nil => cases h; exact .nil
  | cons d rest ih =>
      obtain ⟨hd, hrest⟩ := List.forall_mem_cons.mp hitems
      obtain ⟨ws, first, others, hws, hfirst, hothers, rfl⟩ := itemChars_cons_ok h
      simp only [List.length_cons, List.length_append] at hdepth
      exact .cons hws (hd first hfirst (by omega)) (ih hrest hothers (by omega))

theorem reads_member {depth : Nat} {k : Data.Text} {x : Data} (hx : Reads (value? depth) cs x) :
    Reads (member? (value? depth)) (quote k.text ++ (": ".toList ++ cs)) (.plain k.text, x) where
  starts := ⟨'"', _, rfl, by decide⟩
  read rest hrest := by
    obtain ⟨inside, hquote, hcontent⟩ := content?_quote k.text (": ".toList ++ cs ++ rest)
    have hcolon : skipBlanks (": ".toList ++ cs ++ rest) = ':' :: ([' '] ++ (cs ++ rest)) := by
      rw [List.append_assoc]
      exact skipBlanks_cons (by decide)
    have hspace : skipBlanks ([' '] ++ (cs ++ rest)) = cs ++ rest := by
      rw [skipBlanks_append blank_space, hx.starts.skipBlanks]
    rw [List.append_assoc, hquote, member?, if_pos rfl, hcontent]
    simp only [Option.bind_eq_bind, Option.bind_some, hcolon, hspace, hx.read rest hrest, if_pos]
    simp [String.ofList_toList]

theorem follows_entryChars {depth : Nat}
    (hentries : ∀ e ∈ entries, ∀ cs, chars indent level e.2 = .ok cs → cs.length ≤ depth →
      Reads (value? depth) cs e.2.plain)
    (h : entryChars indent level entries = .ok cs) (hdepth : cs.length ≤ depth) :
    Follows (member? (value? depth)) cs (entries.map fun e => (.plain e.1.text, e.2.plain)) := by
  induction entries generalizing cs with
  | nil => cases h; exact .nil
  | cons e rest ih =>
      obtain ⟨k, d⟩ := e
      obtain ⟨hd, hrest⟩ := List.forall_mem_cons.mp hentries
      obtain ⟨ws, first, others, hws, hfirst, hothers, rfl⟩ := entryChars_cons_ok h
      simp only [List.length_cons, List.length_append] at hdepth
      exact .cons hws (reads_member (hd first hfirst (by omega))) (ih hrest hothers (by omega))

/-- The text of a value is read back as the value. -/
theorem value?_chars {depth : Nat} (hd : IsReadable d) (h : chars indent level d = .ok cs) (hdepth : cs.length ≤ depth)
    (hrest : Closes rest) : value? depth (cs ++ rest) = some (d.plain, rest) := by
  have hvalue := value_chars hd.finite hd.forms h
  obtain ⟨depth, rfl⟩ := (starts_of_value hvalue).exists_succ hdepth
  induction d using Data.recursion generalizing level cs depth rest with
  | null =>
      cases h
      simp [value?, List.dropPrefix?, Data.plain]
  | bool b => cases b <;> cases h <;> simp [value?, List.dropPrefix?, Data.plain]
  | int i =>
      rw [chars_int_ok h]
      exact value?_number (isNumber_int i) (isNumberChar_int i) (numeral?_int i) hrest
  | float x =>
      cases h
      cases x with
      | finite negative m q =>
          obtain ⟨hread, hnumber, hchars⟩ := numeral_text (hd.forms _ (Data.self_mem_nodes _)) negative
          exact value?_number hnumber hchars hread hrest
      | _ => exact absurd (hd.finite _ (Data.self_mem_nodes _)) id
  | text t =>
      cases h
      obtain ⟨inside, hquote, hcontent⟩ := content?_quote t.text rest
      rw [hquote, value?, if_pos rfl, hcontent]
      simp [Data.plain, String.ofList_toList]
  | list items ih =>
      have hitems : ∀ d ∈ items, ∀ cs, chars indent (level + 1) d = .ok cs → cs.length ≤ depth →
          Reads (value? depth) cs d.plain := fun d hmem cs h hdepth =>
        have hvalue := value_chars (hd.item hmem).finite (hd.item hmem).forms h
        ⟨starts_of_value hvalue, fun rest hrest => by
          obtain ⟨depth, rfl⟩ := (starts_of_value hvalue).exists_succ hdepth
          exact ih d hmem (hd.item hmem) h hrest hvalue depth hdepth⟩
      cases items with
      | nil =>
          cases h
          change value? (depth + 1) ('[' :: (']' :: rest)) = _
          rw [value?, if_neg (by decide), if_pos rfl, contained?_empty (.inl rfl)]
          rfl
      | cons d more =>
          obtain ⟨hfirst', hmore⟩ := List.forall_mem_cons.mp hitems
          obtain ⟨ws, first, others, post, hws, hfirst, hothers, hpost, rfl⟩ := chars_list_ok h
          simp only [List.length_append, List.length_cons, List.length_nil] at hdepth
          have hread := contained?_follows (.inl rfl) hws (hfirst' first hfirst (by omega))
            (follows_itemChars hmore hothers (by omega)) hpost rest
          have hjoined : '[' :: (ws ++ (first ++ (others ++ post)) ++ [']']) ++ rest =
            '[' :: (ws ++ (first ++ (others ++ (post ++ ']' :: rest)))) := by simp
          rw [hjoined, value?, if_neg (by decide), if_pos rfl, hread]
          simp [Data.plain, Data.plainItems_eq]
  | dict entries ih =>
      have hentries : ∀ e ∈ entries, ∀ cs, chars indent (level + 1) e.2 = .ok cs → cs.length ≤ depth →
          Reads (value? depth) cs e.2.plain := fun e hmem cs h hdepth =>
        have hvalue := value_chars (hd.entry hmem).finite (hd.entry hmem).forms h
        ⟨starts_of_value hvalue, fun rest hrest => by
          obtain ⟨depth, rfl⟩ := (starts_of_value hvalue).exists_succ hdepth
          exact ih e hmem (hd.entry hmem) h hrest hvalue depth hdepth⟩
      have hdistinct : ((entries.map fun e => (Data.Text.plain e.1.text, e.2.plain)).map (·.1.text)).Nodup := by
        have h : (entries.map (·.1.text)).Nodup := hd.distinct _ (Data.self_mem_nodes _)
        rwa [List.map_map]
      cases entries with
      | nil =>
          cases h
          change value? (depth + 1) ('\x7b' :: ('\x7d' :: rest)) = _
          rw [value?, if_neg (by decide), if_neg (by decide), if_pos rfl, contained?_empty (.inr rfl)]
          rfl
      | cons e more =>
          obtain ⟨k, d⟩ := e
          obtain ⟨hfirst', hmore⟩ := List.forall_mem_cons.mp hentries
          obtain ⟨ws, first, others, post, hws, hfirst, hothers, hpost, rfl⟩ := chars_dict_ok h
          simp only [List.length_append, List.length_cons, List.length_nil] at hdepth
          have hread := contained?_follows (.inr rfl) hws (reads_member (k := k) (hfirst' first hfirst (by omega)))
            (follows_entryChars hmore hothers (by omega)) hpost rest
          have hjoined (member : List Char) : '\x7b' :: (ws ++ (member ++ (others ++ post)) ++ ['\x7d']) ++ rest =
              '\x7b' :: (ws ++ (member ++ (others ++ (post ++ '\x7d' :: rest)))) := by simp
          rw [hjoined, value?, if_neg (by decide), if_neg (by decide), if_pos rfl, hread]
          simp only [Option.bind_eq_bind, Option.bind_some]
          rw [List.map_cons] at hdistinct
          simp [Data.plain, Data.plainEntries_eq, Data.ofEntries_of_nodup hdistinct]

/-! ## Texts -/

theorem parse?_chars (hd : IsReadable d) (h : chars indent level d = .ok cs) : parse? (String.ofList cs) = some d.plain := by
  have hstarts := starts_of_value (value_chars hd.finite hd.forms h)
  have hread : value? cs.length (cs ++ []) = some (d.plain, []) :=
    value?_chars hd h (Nat.le_refl _) fun c hc => by cases hc
  have hskip : skipBlanks cs = cs := by simpa using hstarts.skipBlanks []
  rw [List.append_nil] at hread
  rw [parse?, String.toList_ofList, String.length_ofList, hskip, hread]
  rfl

variable {w w' w'' : World} {r : Ref} {s : String}

theorem run_jsonText (hencode : Lower.encode r w = .ok d w') (hjson : Handle.jsonText indent r w = .ok s w'') :
    ∃ cs, chars indent 0 d = .ok cs ∧ s = String.ofList cs := by
  rw [Handle.jsonText, World.run_bind_ok hencode] at hjson
  cases hcs : chars indent 0 d with
  | error fault =>
      rw [render, hcs] at hjson
      cases hjson
  | ok cs =>
      rw [render, hcs] at hjson
      cases hjson
      exact ⟨cs, rfl, rfl⟩

/-- A text that is written for a value is a valid one, and is read back as what the value became, just if neither
an infinity nor a NaN is in that. -/
theorem jsonText_faithful_iff (hencode : Lower.encode r w = .ok d w') (hforms : d.Throughout Data.HasForms)
    (hjson : Handle.jsonText indent r w = .ok s w'') :
    (Grammar.IsText s.toList ∧ parse? s = some d.plain) ↔ d.Throughout IsFinite := by
  obtain ⟨cs, hcs, rfl⟩ := run_jsonText hencode hjson
  rw [String.toList_ofList, isText_iff hforms hcs]
  exact ⟨And.left, fun hfinite => ⟨hfinite, parse?_chars ⟨hfinite, hforms, Lower.distinct_encode hencode⟩ hcs⟩⟩

/-- An object with a key and texts that need escapes, and a number that has no integer. -/
def measured : World :=
  { Session.initialWorld with
    cells := #[Lower.cellOf .dict (.mapping [(.atom (.text "size\n"), .cell 1)]),
      Lower.cellOf .list (.sequence [.atom (.number (.float (.finite false 4503599627370496 (-55)))), .atom (.text "\"5\\4\""),
        .atom .none])] }

def measures : Data :=
  .dict [(.plain "size\n", .list [.float (.finite false 4503599627370496 (-55)), .text (.plain "\"5\\4\""), .null])]

theorem jsonText_faithful_measured : ∃ w' w'' s, Lower.encode (.cell 0) measured = .ok measures w' ∧
    Handle.jsonText (some 2) (.cell 0) measured = .ok s w'' ∧ Grammar.IsText s.toList ∧ parse? s = some measures := by
  have hencode : ∃ w', Lower.encode (.cell 0) measured = .ok measures w' := ⟨_, rfl⟩
  have hjson : ∃ s w'', Handle.jsonText (some 2) (.cell 0) measured = .ok s w'' := ⟨_, _, rfl⟩
  obtain ⟨w', hencode⟩ := hencode
  obtain ⟨s, w'', hjson⟩ := hjson
  exact ⟨w', w'', s, hencode, hjson, (jsonText_faithful_iff hencode (by decide) hjson).mpr (by decide)⟩

/-- A NaN is written as a name that is no value. -/
theorem not_isText_nan :
    ∃ w', Handle.jsonText none (.atom (.number (.float .nan))) Session.initialWorld = .ok "NaN" w' ∧
      ¬ Grammar.IsText "NaN".toList := by
  have hforms : (Data.float .nan).Throughout Data.HasForms := Data.throughout_of_leaf rfl trivial
  have htext : chars none 0 (.float .nan) = .ok "NaN".toList := rfl
  refine ⟨_, rfl, fun h => ?_⟩
  exact (isText_iff hforms htext).mp h _ (Data.self_mem_nodes _)

end Introspect.Json
