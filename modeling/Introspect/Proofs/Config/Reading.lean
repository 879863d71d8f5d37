import Introspect.Config.Props
import Introspect.Proofs.Pairs
import Introspect.Proofs.Text.Lines
/-!
Reading properties. What a row says is told here by how it is written; a text of such rows gives the last value of each
key, or names the first row that is no property.
-/
namespace Introspect.Props

open Text

variable {row cs before after rest : List Char} {text source : String} {line : Line}

/-- The text of a row that is skipped. -/
def IsComment (cs : List Char) : Prop := ['#'] <+: cs ∨ ['/', '/'] <+: cs

instance (cs : List Char) : Decidable (IsComment cs) := inferInstanceAs (Decidable (_ ∨ _))

/-- A key is read back if it has neither outer blanks nor an equals sign, and opens no comment. -/
structure IsKey (cs : List Char) : Prop where
  ne_nil : cs ≠ []
  trimmed : Trimmed cs
  inline : Inline cs
  no_equals : '=' ∉ cs
  no_comment : ¬ IsComment cs

/-- A text that is neither skipped nor a pair. -/
structure IsMalformed (cs : List Char) : Prop where
  ne_nil : cs ≠ []
  trimmed : Trimmed cs
  inline : Inline cs
  no_comment : ¬ IsComment cs
  no_key : '=' ∉ cs ∨ cs.head? = some '='

instance (cs : List Char) : Decidable (IsKey cs) :=
  decidable_of_iff (cs ≠ [] ∧ Trimmed cs ∧ Inline cs ∧ '=' ∉ cs ∧ ¬ IsComment cs)
    ⟨fun h => ⟨h.1, h.2.1, h.2.2.1, h.2.2.2.1, h.2.2.2.2⟩, fun h => ⟨h.1, h.2, h.3, h.4, h.5⟩⟩

instance (cs : List Char) : Decidable (IsMalformed cs) :=
  decidable_of_iff (cs ≠ [] ∧ Trimmed cs ∧ Inline cs ∧ ¬ IsComment cs ∧ ('=' ∉ cs ∨ cs.head? = some '='))
    ⟨fun h => ⟨h.1, h.2.1, h.2.2.1, h.2.2.2.1, h.2.2.2.2⟩, fun h => ⟨h.1, h.2, h.3, h.4, h.5⟩⟩

/-- How a row that says something is written, with gaps wherever blanks may stand. -/
inductive Spells : List Char → Line → Prop where
  | blank {gap : List Char} (hgap : IsGap gap) : Spells gap .skipped
  | comment {gap cs : List Char} (hgap : IsGap gap) (hcs : Inline cs) (hcomment : IsComment cs) : Spells (gap ++ cs) .skipped
  | pair {before key beforeEquals afterEquals value after : List Char} (hbefore : IsGap before) (hkey : IsKey key)
      (hequals : IsGap beforeEquals) (hequals' : IsGap afterEquals) (hvalue : Trimmed value) (hinline : Inline value)
      (hafter : IsGap after) :
      Spells (before ++ (key ++ beforeEquals ++ '=' :: (afterEquals ++ value)) ++ after)
        (.pair (String.ofList key) (String.ofList value))
  | malformed {before cs after : List Char} (hbefore : IsGap before) (hcs : IsMalformed cs) (hafter : IsGap after) :
      Spells (before ++ cs ++ after) (.malformed (String.ofList cs))

/-- A row together with what it says. -/
structure Row where
  text : List Char
  line : Line
  spells : Spells text line

/-- The pair of a row that is one. -/
def Line.pair? : Line → Option (String × String)
  | .pair key value => some (key, value)
  | _ => none

/-- The text of a row that is neither skipped nor a pair. -/
def Line.malformed? : Line → Option String
  | .malformed text => some text
  | _ => none

/-- The pairs of the rows, from the first to the last. -/
def pairs (rows : List Row) : List (String × String) := rows.flatMap (·.line.pair?.toList)

variable {rows : List Row} {props : Props} {number : Nat}

/-! ## Rows -/

theorem Spells.inline (h : Spells cs line) : Inline cs := by
  cases h with
  | blank hgap => exact hgap.inline
  | comment hgap hcs _ => exact hgap.inline.append hcs
  | pair hbefore hkey hequals hequals' _ hinline hafter =>
      have hrest := Inline.cons (c := '=') rfl (hequals'.inline.append hinline)
      exact (hbefore.inline.append ((hkey.inline.append hequals.inline).append hrest)).append hafter.inline
  | malformed hbefore hcs hafter => exact (hbefore.inline.append hcs.inline).append hafter.inline

theorem IsKey.append_no_equals (h : IsKey cs) (hrest : IsGap rest) : ∀ c ∈ cs ++ rest, c ≠ '=' := by
  rintro c hc rfl
  rcases List.mem_append.mp hc with hc | hc
  · exact h.no_equals hc
  · exact absurd (hrest _ hc).1 (by decide)

theorem head?_gap_ne (h : IsGap cs) : (cs ++ '=' :: rest).head? ≠ some '/' := by
  cases cs with
  | nil => exact ne_of_beq_false rfl
  | cons c cs =>
      intro hc
      have hblank := (h c List.mem_cons_self).1
      rw [Option.some.inj hc] at hblank
      exact absurd hblank (by decide)

/-- What follows may open a comment only together with the text itself. -/
theorem not_isComment_append (hne : cs ≠ []) (hcs : ¬ IsComment cs) (hrest : rest.head? ≠ some '/') :
    ¬ IsComment (cs ++ rest) := by
  obtain ⟨c, cs, rfl⟩ := List.exists_cons_of_ne_nil hne
  rintro (h | h)
  · exact hcs (.inl (by simpa using h))
  · cases cs with
    | cons d cs => exact hcs (.inr (by simpa using h))
    | nil =>
        cases rest with
        | nil => exact hcs (.inr h)
        | cons d rest =>
            have hd : '/' = d := by simpa using (List.cons_prefix_cons.mp h).2
            exact hrest (congrArg some hd.symm)

/-! ## Reading a row -/

theorem readLine_of_isComment (h : IsComment (trimBy isBlank row)) : readLine (String.ofList row) = .skipped := by
  rcases h with ⟨more, hmore⟩ | ⟨more, hmore⟩
  · simp [readLine, ← hmore]
  · simp [readLine, ← hmore]

theorem readLine_of_no_equals (htrim : trimBy isBlank row = cs) (hne : cs ≠ []) (hcs : ¬ IsComment cs)
    (hequals : '=' ∉ cs) : readLine (String.ofList row) = .malformed (String.ofList cs) := by
  have hdrop : cs.dropWhile (· ≠ '=') = [] := by
    apply List.dropWhile_eq_nil_iff.mpr
    intro c hc
    apply decide_eq_true
    rintro rfl
    exact hequals hc
  simp only [readLine, String.toList_ofList, htrim]
  split
  · exact absurd rfl hne
  · exact absurd (.inl (by simp)) hcs
  · exact absurd (.inr (by simp)) hcs
  · rfl
  · rw [hdrop]

theorem readLine_of_equals (htrim : trimBy isBlank row = before ++ '=' :: after) (hne : before ≠ [])
    (hcs : ¬ IsComment (before ++ '=' :: after)) (hbefore : ∀ c ∈ before, c ≠ '=') :
    readLine (String.ofList row) = .pair (trimmed before) (trimmed after) := by
  have hkeep : ∀ c ∈ before, decide (c ≠ '=') = true := fun c hc => decide_eq_true (hbefore c hc)
  have hdrop : (before ++ '=' :: after).dropWhile (· ≠ '=') = '=' :: after := List.dropWhile_append_of_pos hkeep
  have htake : (before ++ '=' :: after).takeWhile (· ≠ '=') = before := by
    rw [List.takeWhile_append_of_pos hkeep]
    simp
  simp only [readLine, String.toList_ofList, htrim]
  split
  · rename_i hnil
    simp at hnil
  · rename_i h
    exact absurd (.inl (by simp [h])) hcs
  · rename_i h
    exact absurd (.inr (by simp [h])) hcs
  · rename_i h
    cases before with
    | nil => exact absurd rfl hne
    | cons c before => exact absurd (List.cons.inj h).1 (hbefore c List.mem_cons_self)
  · rw [hdrop, htake]

theorem trimmed_of_trimmed (h : Trimmed cs) (hbefore : IsGap before) (hafter : IsGap after) :
    trimmed (before ++ cs ++ after) = String.ofList cs := congrArg String.ofList (h.trimBy hbefore hafter)

/-- Without a value the equals sign is the last of the row that is no blank. -/
theorem exists_trimBy_of_pair {key beforeEquals afterEquals value : List Char} (hbefore : IsGap before)
    (hkey : IsKey key) (hequals : IsGap afterEquals) (hvalue : Trimmed value) (hafter : IsGap after) :
    ∃ rest, trimmed rest = String.ofList value ∧
      trimBy isBlank (before ++ (key ++ beforeEquals ++ '=' :: (afterEquals ++ value)) ++ after) =
        key ++ beforeEquals ++ '=' :: rest := by
  cases value with
  | nil =>
      have hrow : Trimmed (key ++ beforeEquals ++ ['=']) := hkey.trimmed.append hkey.ne_nil (by decide) (by decide) _
      refine ⟨[], rfl, ?_⟩
      rw [List.append_nil, ← hrow.trimBy hbefore (hequals.append hafter)]
      simp only [List.append_assoc, List.cons_append, List.nil_append]
  | cons c value =>
      have hrow : Trimmed (key ++ (beforeEquals ++ '=' :: afterEquals) ++ c :: value) :=
        hkey.trimmed.append hkey.ne_nil hvalue (List.cons_ne_nil _ _) _
      refine ⟨afterEquals ++ c :: value, ?_, ?_⟩
      · rw [← trimmed_of_trimmed hvalue hequals isGap_nil, List.append_nil]
      · have htrim := hrow.trimBy hbefore hafter
        simp only [List.append_assoc, List.cons_append] at htrim ⊢
        exact htrim

/-- A row is read as what it spells. -/
theorem readLine_of_spells (h : Spells row line) : readLine (String.ofList row) = line := by
  cases h with
  | blank hgap =>
      have htrim : trimBy isBlank row = [] := trimBy_of_all fun c hc => (hgap c hc).1
      simp only [readLine, String.toList_ofList, htrim]
  | @comment gap cs hgap hcs hcomment =>
      have hkeep {start : List Char} (hne : start ≠ []) (hstart : Trimmed start) (h : start <+: cs) :
          start <+: trimBy isBlank (gap ++ cs) := hstart.prefix_trimBy hne hgap h
      exact readLine_of_isComment (hcomment.imp (hkeep (by decide) (by decide)) (hkeep (by decide) (by decide)))
  | @pair before key beforeEquals _ _ _ hbefore hkey hequals hequals' hvalue hinline hafter =>
      obtain ⟨rest, hrest, htrim⟩ := exists_trimBy_of_pair hbefore hkey hequals' hvalue hafter
      have hcomment : ¬ IsComment (key ++ (beforeEquals ++ '=' :: rest)) :=
        not_isComment_append hkey.ne_nil hkey.no_comment (head?_gap_ne hequals)
      rw [← List.append_assoc] at hcomment
      rw [readLine_of_equals htrim (by simp [hkey.ne_nil]) hcomment (hkey.append_no_equals hequals), hrest]
      rw [← trimmed_of_trimmed hkey.trimmed isGap_nil hequals, List.nil_append]
  | @malformed _ cs _ hbefore hcs hafter =>
      have htrim := hcs.trimmed.trimBy hbefore hafter
      rcases hcs.no_key with hequals | hequals
      · exact readLine_of_no_equals htrim hcs.ne_nil hcs.no_comment hequals
      · obtain ⟨rest, rfl⟩ : ∃ rest, cs = '=' :: rest := by
          cases cs with
          | nil => exact absurd rfl hcs.ne_nil
          | cons c rest => exact ⟨rest, by rw [Option.some.inj hequals]⟩
        simp only [readLine, String.toList_ofList, htrim]

/-! ## Reading rows -/

theorem readLines_row {row : Row} (h : row.line.malformed? = none) (rest : List String) :
    readLines source number props (String.ofList row.text :: rest) =
      readLines source (number + 1) (Pairs.putAll props row.line.pair?.toList) rest := by
  rw [readLines, readLine_of_spells row.spells]
  cases hline : row.line with
  | skipped => rfl
  | pair key value => rfl
  | malformed text =>
      rw [hline] at h
      exact absurd h (Option.some_ne_none text)

/-- Rows that are skipped or pairs add their pairs to the properties. -/
theorem readLines_append (h : ∀ row ∈ rows, row.line.malformed? = none) (rest : List String) :
    readLines source number props (rows.map (String.ofList ·.text) ++ rest) =
      readLines source (number + rows.length) (Pairs.putAll props (pairs rows)) rest := by
  induction rows generalizing number props with
  | nil => rfl
  | cons row rows ih =>
      rw [List.map_cons, List.cons_append, readLines_row (h row List.mem_cons_self),
        ih fun r hr => h r (List.mem_cons_of_mem _ hr), ← Pairs.putAll_append, List.length_cons, Nat.add_assoc,
        Nat.add_comm 1]
      rfl

/-- Rows can always be written, each with a line feed after it. -/
theorem written_rows (rows : List Row) : Written ((rows.map Row.text).flatMap (· ++ ['\n'])) (rows.map Row.text) := by
  apply written_feeds
  intro row hrow
  obtain ⟨r, -, rfl⟩ := List.mem_map.mp hrow
  exact r.spells.inline

theorem lines_eq (h : Written text.toList (rows.map Row.text)) : lines text = rows.map (String.ofList ·.text) := by
  rw [h.lines, List.map_map]
  rfl

/-- A text of rows gives the last value of each key, or names the number of the first row that is malformed. -/
theorem parse_rows (h : Written text.toList (rows.map Row.text)) :
    ((∀ row ∈ rows, row.line.malformed? = none) → ∃ props, parse text source = .ok props ∧ Pairs.Distinct props ∧
      ∀ key, props.lookup key = (pairs rows).reverse.lookup key) ∧
    ∀ before row after t, rows = before ++ row :: after → (∀ r ∈ before, r.line.malformed? = none) →
      row.line = .malformed t → ∃ fault, parse text source = .error fault ∧ fault.kind? = some .parse ∧
        fault.message = "Invalid props line " ++ source ++ ":" ++ toString (before.length + 1) ++ ": " ++ t := by
  constructor
  · intro hrows
    have hempty : Pairs.Distinct ([] : Props) := List.nodup_nil
    refine ⟨Pairs.putAll [] (pairs rows), ?_, hempty.putAll _, ?_⟩
    · rw [parse, lines_eq h, ← List.append_nil (rows.map _), readLines_append hrows]
      rfl
    · intro key
      rw [Pairs.lookup_putAll_reverse, List.lookup_nil, Option.or_none]
  · rintro before row after t rfl hbefore hrow
    refine ⟨.badProps source (1 + before.length) t, ?_, rfl, by rw [Nat.add_comm]; rfl⟩
    rw [parse, lines_eq h, List.map_append, List.map_cons, readLines_append hbefore, readLines,
      readLine_of_spells row.spells, hrow]

/-- A comment, a key given twice with values that hold an equals sign and comment marks, an empty row. -/
def settings : List Row :=
  [⟨_, _, @Spells.comment [' '] "# a = 0".toList (by decide) (by decide) (by decide)⟩,
    ⟨_, _, @Spells.pair ['\u00A0'] ['a'] [' '] [] "b=c # d".toList ['\t'] (by decide) (by decide) (by decide) (by decide)
      (by decide) (by decide) (by decide)⟩,
    ⟨_, _, @Spells.blank [] (by decide)⟩,
    ⟨_, _, @Spells.pair [] ['a'] [] [] "//x".toList [] (by decide) (by decide) (by decide) (by decide) (by decide)
      (by decide) (by decide)⟩]

/-- An empty row and a comment before a row without a key. -/
def keyless : List Row :=
  [⟨_, _, @Spells.blank [] (by decide)⟩, ⟨_, _, @Spells.comment [] "//".toList (by decide) (by decide) (by decide)⟩,
    ⟨_, _, @Spells.malformed [' '] "=x".toList [] (by decide) (by decide) (by decide)⟩]

theorem parse_rows_settings :
    (∃ props, parse " # a = 0\n\u00A0a =b=c # d\t\r\n\u2028a=//x" "here" = .ok props ∧ props.lookup "a" = some "//x") ∧
      ∃ fault, parse "\u2028//\r =x" "here" = .error fault ∧ fault.kind? = some .parse ∧
        fault.message = "Invalid props line here:3: =x" := by
  constructor
  · have hwritten : Written " # a = 0\n\u00A0a =b=c # d\t\r\n\u2028a=//x".toList (settings.map Row.text) :=
      @Written.ended " # a = 0".toList _ '\n' _ (by decide) (by decide) (by decide)
        (@Written.returned "\u00A0a =b=c # d\t".toList _ _ (by decide)
          (@Written.ended [] _ '\u2028' _ (by decide) (by decide) (by decide) (.last (by decide) (by decide))))
    obtain ⟨props, hprops, -, hvalue⟩ := (parse_rows hwritten).1 (by decide)
    exact ⟨props, hprops, hvalue "a"⟩
  · have hwritten : Written "\u2028//\r =x".toList (keyless.map Row.text) :=
      @Written.ended [] _ '\u2028' _ (by decide) (by decide) (by decide)
        (@Written.ended "//".toList _ '\r' _ (by decide) (by decide) (by decide) (.last (by decide) (by decide)))
    exact (parse_rows hwritten).2 (keyless.take 2) _ [] "=x" rfl (by decide) rfl

end Introspect.Props
