import Introspect.Proofs.Perl.Paths
import Introspect.Perl.Term
/-!
Compact texts are read back. The texts of proper terms are closed, so that proper terms of one compact text
are one term.
-/
namespace Introspect.Perl

variable {rest rest' : List Char}

/-- A term whose bare texts are numerals and whose key literals are closed. -/
inductive Proper : Term → Prop where
  | undefined : Proper .undefined
  | bare {text} : text ≠ [] → (∀ c ∈ text, isNumeralChar c = true) → Proper (.bare text)
  | quoted (content) : Proper (.quoted content)
  | code : Proper .code
  | path {p : Path} : p.Proper → Proper (.path p)
  | reference {t} : Proper t → Proper (.reference t)
  | array {items} : (∀ t ∈ items, Proper t) → Proper (.array items)
  | hash {entries} : (∀ e ∈ entries, Closed e.1) → (∀ e ∈ entries, Proper e.2) → Proper (.hash entries)
  | blessed {t} (cls) : Proper t → Proper (.blessed t cls)

@[simp]
theorem newline_zero (level : Nat) : newline 0 level = [] := by simp [newline]

section Closed

variable {indent : Int} {level : Nat}

theorem closed_blank : Closed [' '] := closed_of_all (by decide)

theorem inner_items {items : List Term} (h : ∀ t ∈ items, Closed (t.chars 0 level)) :
    Inner (Term.itemChars 0 level items) := by
  induction items with
  | nil => exact Closed.nil.inner
  | cons t rest ih =>
      simp only [Term.itemChars, newline_zero]
      exact (inner_comma.append (h t List.mem_cons_self).inner).append
        (ih fun t ht => h t (List.mem_cons_of_mem _ ht))

theorem inner_entry {key : List Char} {t : Term} (hkey : Closed key) (ht : Closed (t.chars 0 level)) :
    Inner (key ++ keyArrow ++ t.chars 0 level) :=
  (hkey.inner.append fun _ => rfl).append ht.inner

theorem inner_entries {entries : List (List Char × Term)} (hkeys : ∀ e ∈ entries, Closed e.1)
    (h : ∀ e ∈ entries, Closed (e.2.chars 0 level)) : Inner (Term.entryChars 0 level entries) := by
  induction entries with
  | nil => exact Closed.nil.inner
  | cons e rest ih =>
      simp only [Term.entryChars, newline_zero, List.append_assoc]
      have hentry := inner_entry (hkeys e List.mem_cons_self) (h e List.mem_cons_self)
      have hrest := ih (fun e he => hkeys e (List.mem_cons_of_mem _ he))
        fun e he => h e (List.mem_cons_of_mem _ he)
      simpa only [List.append_assoc, List.cons_append, List.nil_append] using
        inner_comma.append (hentry.append hrest)

end Closed

namespace Proper

variable {t t' : Term} {level : Nat}

theorem closed (h : Proper t) (level : Nat) : Closed (t.chars 0 level) := by
  induction h generalizing level with
  | undefined =>
      rw [Term.chars]
      exact closed_of_all (by decide)
  | bare _ h => exact .of_plain fun c hc => isPlainChar_of_isNumeralChar (h c hc)
  | quoted content => exact closed_quote content
  | code =>
      have hbraces : codeText = "sub ".toList ++ '\x7b' :: (" \"DUMMY\" ".toList ++ ['\x7d']) := by decide
      rw [Term.chars, hbraces]
      refine Closed.append (closed_of_all (by decide)) ?_
      exact .bracket (by decide) (by decide) (closed_of_all (by decide)).inner
  | path h =>
      rw [Term.chars]
      exact Path.Proper.closed h
  | reference _ ih =>
      have hslash : Closed ['\\'] := closed_of_all (by decide)
      exact hslash.append (ih level)
  | @array items _ ih =>
      cases items with
      | nil => exact .bracket (.inl rfl) (.inl rfl) Closed.nil.inner
      | cons t rest =>
          have hitems := (ih t List.mem_cons_self (level + 1)).inner.append
            (inner_items fun t ht => ih t (List.mem_cons_of_mem _ ht) (level + 1))
          simpa [Term.chars] using Closed.bracket (.inl rfl) (.inl rfl) hitems
  | @hash entries hkeys _ ih =>
      cases entries with
      | nil => exact .bracket (.inr (.inl rfl)) (.inr (.inl rfl)) Closed.nil.inner
      | cons e rest =>
          have hentry := inner_entry (hkeys e List.mem_cons_self) (ih e List.mem_cons_self (level + 1))
          have hrest := inner_entries (fun e he => hkeys e (List.mem_cons_of_mem _ he))
            fun e he => ih e (List.mem_cons_of_mem _ he) (level + 1)
          simpa [Term.chars] using
            Closed.bracket (.inr (.inl rfl)) (.inr (.inl rfl)) (hentry.append hrest)
  | @blessed t cls _ ih =>
      have hopening : blessOpening = "bless".toList ++ ['(', ' '] := by decide
      have hinner := (closed_blank.inner.append (ih level).inner).append
        ((inner_comma.append closed_blank.inner).append ((closed_quote cls).append closed_blank).inner)
      have hbless : Closed "bless".toList := closed_of_all (by decide)
      rw [Term.chars, hopening]
      simpa [classComma, blessClosing] using
        hbless.append (.bracket (.inr (.inr rfl)) (.inr (.inr rfl)) hinner)

/-- What the first character of a text tells. -/
inductive Mark where
  | undefined | bare | quoted | code | path | reference | array | hash | blessed | other
deriving DecidableEq

def Mark.ofChar (c : Char) : Mark :=
  if isNumeralChar c then .bare
  else if c = Text.apostrophe then .quoted
  else match c with
    | 'u' => .undefined
    | 's' => .code
    | '$' => .path
    | '\\' => .reference
    | '[' => .array
    | '\x7b' => .hash
    | 'b' => .blessed
    | _ => .other

def mark : Term → Mark
  | .undefined => .undefined
  | .bare _ => .bare
  | .quoted _ => .quoted
  | .code => .code
  | .path _ => .path
  | .reference _ => .reference
  | .array _ => .array
  | .hash _ => .hash
  | .blessed .. => .blessed

theorem exists_mark (h : Proper t) (level : Nat) :
    ∃ c rest, t.chars 0 level = c :: rest ∧ Mark.ofChar c = mark t := by
  cases h with
  | undefined => exact ⟨'u', undefinedText.tail, by rw [Term.chars]; decide, by decide⟩
  | @bare text hne hchars =>
      obtain ⟨c, rest, rfl⟩ := List.exists_cons_of_ne_nil hne
      exact ⟨c, rest, by rw [Term.chars], if_pos (hchars c List.mem_cons_self)⟩
  | quoted content =>
      have hmark : Mark.ofChar Text.apostrophe = .quoted := by decide
      exact ⟨_, _, by rw [Term.chars, quote]; rfl, hmark⟩
  | code => exact ⟨'s', codeText.tail, by rw [Term.chars]; decide, by decide⟩
  | @path p hp =>
      obtain ⟨rest, hrest⟩ := Path.exists_dollar p
      have hmark : Mark.ofChar '$' = .path := by decide
      exact ⟨'$', rest, by rw [Term.chars, hrest], hmark⟩
  | reference _ =>
      have hmark : Mark.ofChar '\\' = .reference := by decide
      exact ⟨_, _, by rw [Term.chars], hmark⟩
  | @array items _ =>
      have hmark : Mark.ofChar '[' = .array := by decide
      cases items <;> exact ⟨_, _, rfl, hmark⟩
  | @hash entries _ _ =>
      have hmark : Mark.ofChar '\x7b' = .hash := by decide
      cases entries <;> exact ⟨_, _, rfl, hmark⟩
  | @blessed t cls _ =>
      have hmark : Mark.ofChar 'b' = .blessed := by decide
      have hopening : blessOpening = 'b' :: blessOpening.tail := by decide
      exact ⟨_, _, by rw [Term.chars, hopening]; rfl, hmark⟩

theorem mark_eq (h : Proper t) (h' : Proper t') (he : t.chars 0 level = t'.chars 0 level) :
    mark t = mark t' := by
  obtain ⟨c, rest, hc, hmark⟩ := h.exists_mark level
  obtain ⟨c', rest', hc', hmark'⟩ := h'.exists_mark level
  rw [hc, hc'] at he
  cases he
  rw [← hmark, ← hmark']

theorem chars_ne_closing (h : Proper t) (rest : List Char) : t.chars 0 level ++ rest ≠ [']'] := by
  obtain ⟨c, more, hc, hmark⟩ := h.exists_mark level
  have hother : mark t ≠ .other := by cases t <;> simp [mark]
  rw [hc, List.cons_append]
  intro he
  rw [(List.cons.inj he).1] at hmark
  exact hother (hmark.symm.trans (by decide))

theorem ends_items (items : List Term) : Ends (Term.itemChars 0 level items ++ [']']) := by
  cases items with
  | nil => exact ends_cons rfl
  | cons t rest =>
      simp only [Term.itemChars, List.cons_append]
      exact ends_cons rfl

theorem ends_entries (entries : List (List Char × Term)) :
    Ends (Term.entryChars 0 level entries ++ ['\x7d']) := by
  cases entries with
  | nil => exact ends_cons rfl
  | cons e rest =>
      simp only [Term.entryChars, List.cons_append]
      exact ends_cons rfl

theorem items_inj {items items' : List Term} (h : ∀ t ∈ items, Proper t)
    (hinj : ∀ t ∈ items, ∀ t', Proper t' → t.chars 0 level = t'.chars 0 level → t = t')
    (h' : ∀ t ∈ items', Proper t)
    (he : Term.itemChars 0 level items ++ [']'] = Term.itemChars 0 level items' ++ [']']) :
    items = items' := by
  induction items generalizing items' with
  | nil =>
      cases items' with
      | nil => rfl
      | cons t' rest' =>
          simp only [Term.itemChars, List.cons_append, List.nil_append] at he
          cases he
  | cons t rest ih =>
      cases items' with
      | nil =>
          simp only [Term.itemChars, List.cons_append, List.nil_append] at he
          cases he
      | cons t' rest' =>
          simp only [Term.itemChars, newline_zero, List.cons_append, List.nil_append, List.append_assoc,
            List.cons.injEq, true_and] at he
          obtain ⟨ht, hrest⟩ := ((h t List.mem_cons_self).closed level).append_inj
            ((h' t' List.mem_cons_self).closed level) (ends_items rest) (ends_items rest') he
          rw [hinj t List.mem_cons_self t' (h' t' List.mem_cons_self) ht,
            ih (fun t ht => h t (List.mem_cons_of_mem _ ht)) (fun t ht => hinj t (List.mem_cons_of_mem _ ht))
              (fun t ht => h' t (List.mem_cons_of_mem _ ht)) hrest]

theorem array_inj {items items' : List Term} (h : ∀ t ∈ items, Proper t)
    (hinj : ∀ t ∈ items, ∀ t', Proper t' → t.chars 0 (level + 1) = t'.chars 0 (level + 1) → t = t')
    (h' : ∀ t ∈ items', Proper t) (he : (Term.array items).chars 0 level = (Term.array items').chars 0 level) :
    items = items' := by
  cases items <;> cases items' <;>
    simp only [Term.chars, newline_zero, List.cons_append, List.nil_append, List.append_nil,
      List.append_assoc, List.cons.injEq, true_and] at he
  · rfl
  · exact absurd he.symm (chars_ne_closing (h' _ List.mem_cons_self) _)
  · exact absurd he (chars_ne_closing (h _ List.mem_cons_self) _)
  · exact items_inj h hinj h' (by simpa [Term.itemChars] using he)

/-- A key ends in front of its arrow. -/
theorem key_inj {key key' : List Char} (hkey : Closed key) (hkey' : Closed key')
    (he : key ++ (keyArrow ++ rest) = key' ++ (keyArrow ++ rest')) : key = key' ∧ rest = rest' := by
  have harrow (rest : List Char) (key : List Char) :
      key ++ (keyArrow ++ rest) = (key ++ [' ']) ++ ('=' :: '>' :: ' ' :: rest) := by
    simp [keyArrow]
  rw [harrow, harrow] at he
  obtain ⟨hkeys, hrest⟩ := (hkey.append closed_blank).append_inj (hkey'.append closed_blank)
    (ends_cons rfl) (ends_cons rfl) he
  simp only [List.cons.injEq, true_and] at hrest
  exact ⟨List.append_cancel_right hkeys, hrest⟩

theorem key_ne_closing {key : List Char} (hkey : Closed key) :
    key ++ (keyArrow ++ rest) ≠ ['\x7d'] := by
  have harrow : key ++ (keyArrow ++ rest) = (key ++ [' ']) ++ ('=' :: '>' :: ' ' :: rest) := by
    simp [keyArrow]
  intro he
  rw [harrow] at he
  have hkeys := ((hkey.append closed_blank).append_inj Closed.nil (ends_cons rfl) (ends_cons rfl)
    (he.trans (List.nil_append _).symm)).1
  simp at hkeys

theorem entries_inj {entries entries' : List (List Char × Term)}
    (hkeys : ∀ e ∈ entries, Closed e.1) (h : ∀ e ∈ entries, Proper e.2)
    (hinj : ∀ e ∈ entries, ∀ t', Proper t' → e.2.chars 0 level = t'.chars 0 level → e.2 = t')
    (hkeys' : ∀ e ∈ entries', Closed e.1) (h' : ∀ e ∈ entries', Proper e.2)
    (he : Term.entryChars 0 level entries ++ ['\x7d'] = Term.entryChars 0 level entries' ++ ['\x7d']) :
    entries = entries' := by
  induction entries generalizing entries' with
  | nil =>
      cases entries' with
      | nil => rfl
      | cons e' rest' =>
          simp only [Term.entryChars, List.cons_append, List.nil_append] at he
          cases he
  | cons e rest ih =>
      cases entries' with
      | nil =>
          simp only [Term.entryChars, List.cons_append, List.nil_append] at he
          cases he
      | cons e' rest' =>
          simp only [Term.entryChars, newline_zero, List.cons_append, List.nil_append, List.append_assoc,
            List.cons.injEq, true_and] at he
          obtain ⟨hkey, he⟩ := key_inj (hkeys e List.mem_cons_self) (hkeys' e' List.mem_cons_self) he
          obtain ⟨ht, hrest⟩ := ((h e List.mem_cons_self).closed level).append_inj
            ((h' e' List.mem_cons_self).closed level) (ends_entries rest) (ends_entries rest') he
          have hvalue := hinj e List.mem_cons_self e'.2 (h' e' List.mem_cons_self) ht
          have hrest := ih (fun e he => hkeys e (List.mem_cons_of_mem _ he))
            (fun e he => h e (List.mem_cons_of_mem _ he)) (fun e he => hinj e (List.mem_cons_of_mem _ he))
            (fun e he => hkeys' e (List.mem_cons_of_mem _ he)) (fun e he => h' e (List.mem_cons_of_mem _ he)) hrest
          rw [Prod.ext hkey hvalue, hrest]

theorem hash_inj {entries entries' : List (List Char × Term)}
    (hkeys : ∀ e ∈ entries, Closed e.1) (h : ∀ e ∈ entries, Proper e.2)
    (hinj : ∀ e ∈ entries, ∀ t', Proper t' → e.2.chars 0 (level + 1) = t'.chars 0 (level + 1) → e.2 = t')
    (hkeys' : ∀ e ∈ entries', Closed e.1) (h' : ∀ e ∈ entries', Proper e.2)
    (he : (Term.hash entries).chars 0 level = (Term.hash entries').chars 0 level) : entries = entries' := by
  cases entries <;> cases entries' <;>
    simp only [Term.chars, newline_zero, List.cons_append, List.nil_append, List.append_nil,
      List.append_assoc, List.cons.injEq, true_and] at he
  · rfl
  · exact absurd he.symm (key_ne_closing (hkeys' _ List.mem_cons_self))
  · exact absurd he (key_ne_closing (hkeys _ List.mem_cons_self))
  · exact entries_inj hkeys h hinj hkeys' h' (by simpa [Term.entryChars] using he)

/-- Proper terms of one compact text are one term. -/
theorem chars_inj (h : Proper t) (h' : Proper t') (he : t.chars 0 level = t'.chars 0 level) : t = t' := by
  -- The first character leaves one shape for the second term.
  have hmark := h.mark_eq h' he
  induction h generalizing t' level with
  | undefined =>
      cases h' with
      | undefined => rfl
      | _ => cases hmark
  | bare _ _ =>
      cases h' with
      | bare _ _ =>
          simp only [Term.chars] at he
          rw [he]
      | _ => cases hmark
  | quoted content =>
      cases h' with
      | quoted content' =>
          simp only [Term.chars] at he
          rw [quote_inj he]
      | _ => cases hmark
  | code =>
      cases h' with
      | code => rfl
      | _ => cases hmark
  | path hp =>
      cases h' with
      | path hp' =>
          simp only [Term.chars] at he
          rw [hp.text_inj hp' he]
      | _ => cases hmark
  | reference ht ih =>
      cases h' with
      | reference ht' =>
          simp only [Term.chars, List.cons.injEq, true_and] at he
          rw [ih ht' he (ht.mark_eq ht' he)]
      | _ => cases hmark
  | @array items hitems ih =>
      cases h' with
      | @array items' hitems' =>
          refine congrArg Term.array (array_inj hitems (fun t ht t' ht' he => ?_) hitems' he)
          exact ih t ht ht' he ((hitems t ht).mark_eq ht' he)
      | _ => cases hmark
  | @hash entries hkeys hvalues ih =>
      cases h' with
      | @hash entries' hkeys' hvalues' =>
          refine congrArg Term.hash (hash_inj hkeys hvalues (fun e he t' ht' heq => ?_) hkeys' hvalues' he)
          exact ih e he ht' heq ((hvalues e he).mark_eq ht' heq)
      | _ => cases hmark
  | @blessed t cls ht ih =>
      cases h' with
      | @blessed t' cls' ht' =>
          simp only [Term.chars, List.append_assoc] at he
          have hends (cls : List Char) : Ends (classComma ++ (quote cls ++ blessClosing)) := ends_cons rfl
          obtain ⟨htext, hcls⟩ := (ht.closed level).append_inj (ht'.closed level) (hends cls) (hends cls')
            (List.append_cancel_left he)
          have hquote := List.append_cancel_right (List.append_cancel_left hcls)
          rw [ih ht' htext (ht.mark_eq ht' htext), quote_inj hquote]
      | _ => cases hmark

end Proper

end Introspect.Perl
