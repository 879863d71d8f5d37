import Introspect.Perl.Term
/-!
Closed texts. A scanner that counts brackets and passes over quotes finds the end of a closed text wherever
a comma, an equals sign or a closing bracket follows it.
-/
namespace Introspect.Perl

/-! ## Scanning -/

/-- Whether a scanner stands inside quotes, and there behind a backslash. -/
inductive Quoting where
  | outside | inside | escaped

def isOpening (c : Char) : Bool := c = '[' || c = '\x7b' || c = '('

def isClosing (c : Char) : Bool := c = ']' || c = '\x7d' || c = ')'

/-- One character further with so many open brackets, unless the character ends what is scanned. -/
def scanChar : Nat × Quoting → Char → Option (Nat × Quoting)
  | (d, .escaped), _ => some (d, .inside)
  | (d, .inside), c =>
    some (d, if c = '\\' then .escaped else if c = Text.apostrophe then .outside else .inside)
  | (d, .outside), c =>
    if c = Text.apostrophe then some (d, .inside)
    else if isOpening c then some (d + 1, .outside)
    else if isClosing c then if d = 0 then none else some (d - 1, .outside)
    else if (c = ',' ∨ c = '=') ∧ d = 0 then none
    else some (d, .outside)

def scan (s : Nat × Quoting) (text : List Char) : Option (Nat × Quoting) := text.foldlM scanChar s

/-- A text without an end in it, under any number of open brackets. -/
def Closed (text : List Char) : Prop := ∀ d, scan (d, .outside) text = some (d, .outside)

/-- A text without an end in it if some bracket is open. -/
def Inner (text : List Char) : Prop := ∀ d, scan (d + 1, .outside) text = some (d + 1, .outside)

/-- What follows begins with the end of what is before it. -/
def Ends (rest : List Char) : Prop := ∀ c ∈ rest.head?, scanChar (0, .outside) c = none

variable {a b rest rest' : List Char}

theorem scan_cons (s : Nat × Quoting) (c : Char) (text : List Char) :
    scan s (c :: text) = (scanChar s c).bind (scan · text) := rfl

theorem scan_append (s : Nat × Quoting) (a b : List Char) : scan s (a ++ b) = (scan s a).bind (scan · b) :=
  List.foldlM_append

namespace Closed

theorem nil : Closed [] := fun _ => rfl

theorem append (ha : Closed a) (hb : Closed b) : Closed (a ++ b) := fun d => by
  rw [scan_append, ha d]
  exact hb d

theorem inner (h : Closed a) : Inner a := fun d => h (d + 1)

/-- A text stays closed between brackets even if it ends somewhere. -/
theorem bracket {opening closing : Char} (ho : opening = '[' ∨ opening = '\x7b' ∨ opening = '(')
    (hc : closing = ']' ∨ closing = '\x7d' ∨ closing = ')') (h : Inner a) :
    Closed (opening :: (a ++ [closing])) := fun d => by
  have hopen : scanChar (d, .outside) opening = some (d + 1, .outside) := by
    rcases ho with rfl | rfl | rfl <;> rfl
  have hclose : scanChar (d + 1, .outside) closing = some (d, .outside) := by
    rcases hc with rfl | rfl | rfl <;> rfl
  rw [scan_cons, hopen, Option.bind_some, scan_append, h d, Option.bind_some, scan_cons, hclose]
  rfl

/-- Where a closed text ends is determined by what ends it. -/
theorem append_inj (ha : Closed a) (hb : Closed b) (hr : Ends rest) (hr' : Ends rest')
    (h : a ++ rest = b ++ rest') : a = b ∧ rest = rest' := by
  have hextra {a more rest : List Char} (ha : Closed a) (hmore : Closed (a ++ more))
      (hends : Ends (more ++ rest)) : more = [] := by
    cases more with
    | nil => rfl
    | cons c more =>
        have hscan := hmore 0
        rw [scan_append, ha 0, Option.bind_some, scan_cons, hends c rfl] at hscan
        cases hscan
  rcases List.append_eq_append_iff.mp h with ⟨more, rfl, rfl⟩ | ⟨more, rfl, rfl⟩
  · cases hextra ha hb hr
    simp
  · cases hextra hb ha hr'
    simp

end Closed

theorem Inner.append (ha : Inner a) (hb : Inner b) : Inner (a ++ b) := fun d => by
  rw [scan_append, ha d]
  exact hb d

theorem inner_comma : Inner [','] := fun _ => rfl

theorem ends_cons {c : Char} (h : scanChar (0, .outside) c = none) : Ends (c :: rest) := fun c' hc => by
  cases hc
  exact h

/-! ## Texts without brackets, quotes and separators -/

def isPlainChar (c : Char) : Bool :=
  c ≠ Text.apostrophe && !isOpening c && !isClosing c && c ≠ ',' && c ≠ '='

theorem Closed.of_plain (h : ∀ c ∈ a, isPlainChar c = true) : Closed a := fun d => by
  induction a with
  | nil => rfl
  | cons c rest ih =>
      have hc := h c List.mem_cons_self
      have hstep : scanChar (d, .outside) c = some (d, .outside) := by
        simp only [isPlainChar, Bool.and_eq_true, decide_eq_true_eq, Bool.not_eq_true', ne_eq] at hc
        obtain ⟨⟨⟨⟨hq, ho⟩, hcl⟩, hcomma⟩, heq⟩ := hc
        simp [scanChar, hq, ho, hcl, hcomma, heq]
      rw [scan_cons, hstep]
      exact ih fun c hc => h c (List.mem_cons_of_mem _ hc)

theorem closed_of_all {text : List Char} (h : text.all isPlainChar = true) : Closed text :=
  .of_plain (List.all_eq_true.mp h)

def isNumeralChar (c : Char) : Bool := c.isDigit || c = '-'

theorem isPlainChar_of_isNumeralChar {c : Char} (h : isNumeralChar c = true) : isPlainChar c = true := by
  have hdigit : ∀ c : Char, c.isDigit = true → isPlainChar c = true := fun c hc => by
    have hbounds : 48 ≤ c.val.toNat ∧ c.val.toNat ≤ 57 := by
      simpa [Char.isDigit, UInt32.le_iff_toNat_le] using hc
    have hne {c' : Char} (h : ¬ (48 ≤ c'.val.toNat ∧ c'.val.toNat ≤ 57)) : c ≠ c' := fun he => h (he ▸ hbounds)
    simp [isPlainChar, isOpening, isClosing, Text.apostrophe, hne]
  rw [isNumeralChar, Bool.or_eq_true, decide_eq_true_eq] at h
  rcases h with h | rfl
  · exact hdigit c h
  · decide

/-! ## Quotes -/

theorem scan_escape (d : Nat) (content rest : List Char) :
    scan (d, .inside) (escape content ++ rest) = scan (d, .inside) rest := by
  induction content with
  | nil => rfl
  | cons c content ih =>
      rw [escape]
      split
      · rw [List.cons_append, List.cons_append, scan_cons, scanChar, Option.bind_some, scan_cons]
        exact ih
      · rename_i hc
        rw [not_or] at hc
        rw [List.cons_append, scan_cons, scanChar, if_neg hc.1, if_neg hc.2, Option.bind_some]
        exact ih

theorem closed_quote (content : List Char) : Closed (quote content) := fun d => by
  have hquote : quote content = Text.apostrophe :: (escape content ++ [Text.apostrophe]) := rfl
  rw [hquote, scan_cons]
  exact scan_escape d content [Text.apostrophe]

theorem escape_inj {content content' : List Char} (h : escape content = escape content') :
    content = content' := by
  induction content generalizing content' with
  | nil =>
      cases content' with
      | nil => rfl
      | cons c content' =>
          rw [escape, escape] at h
          split at h <;> cases h
  | cons c content ih =>
      cases content' with
      | nil =>
          rw [escape, escape] at h
          split at h <;> cases h
      | cons c' content' =>
          rw [escape, escape] at h
          split at h <;> split at h
          · simp only [List.cons.injEq, true_and] at h
            rw [h.1, ih h.2]
          · rename_i hc'
            simp only [List.cons.injEq] at h
            exact absurd (.inl h.1.symm) hc'
          · rename_i hc _
            simp only [List.cons.injEq] at h
            exact absurd (.inl h.1) hc
          · simp only [List.cons.injEq] at h
            rw [h.1, ih h.2]

theorem quote_inj {content content' : List Char} (h : quote content = quote content') :
    content = content' := by
  simp only [quote, List.cons_append, List.cons.injEq, true_and] at h
  exact escape_inj (List.append_cancel_right h)

end Introspect.Perl
