import Introspect.Proofs.Perl.Leaves
/-!
Layout. A reader that joins the lines of a dump finds the compact dump in it, and in front of each line as
many spaces as the brackets ask for that are open there.
-/
namespace Introspect.Perl

/-! ## Reading lines -/

/-- The spaces in front of a line, and how many arrays and hashes are open there. -/
structure Margin where
  spaces : Nat
  level : Nat
deriving DecidableEq

/-- What opens an array or a hash. The brackets of paths and of code close on the line on which they open. -/
def opens (c : Char) : Bool := c = '[' || c = '\x7b'

def closes (c : Char) : Bool := c = ']' || c = '\x7d'

/-- What a reader knows behind a part of a text. Until something else than a space stands on a new line, the
spaces on it are counted. -/
structure Reader where
  quoting : Quoting
  level : Nat
  blank : Option Nat
  kept : List Char
  margins : List Margin

namespace Reader

def initial : Reader := ⟨.outside, 0, none, [], []⟩

/-- The margin of the line, if there is one, ends where so many brackets are open. -/
def settle (s : Reader) (level : Nat) : Reader :=
  match s.blank with
  | none => s
  | some spaces => { s with blank := none, margins := s.margins ++ [⟨spaces, level⟩] }

def keep (s : Reader) (c : Char) : Reader := { s with kept := s.kept ++ [c] }

/-- One character further outside quotes. A bracket that closes counts as closed in front of it. -/
def stepOutside (s : Reader) (c : Char) : Reader :=
  if c = '\n' then { s.settle s.level with blank := some 0 }
  else if s.blank.isSome ∧ c = ' ' then { s with blank := s.blank.map (· + 1) }
  else if closes c then { (s.settle (s.level - 1)).keep c with level := s.level - 1 }
  else if opens c then { (s.settle s.level).keep c with level := s.level + 1 }
  else { (s.settle s.level).keep c with quoting := if c = Text.apostrophe then .inside else .outside }

def step (s : Reader) (c : Char) : Reader :=
  match s.quoting with
  | .escaped => { s.keep c with quoting := .inside }
  | .inside =>
    { s.keep c with
      quoting := if c = '\\' then .escaped else if c = Text.apostrophe then .outside else .inside }
  | .outside => s.stepOutside c

def run (s : Reader) (text : List Char) : Reader := text.foldl step s

end Reader

/-- The text without the line ends outside quotes and the spaces that follow them. -/
def joined (text : List Char) : List Char := (Reader.initial.run text).kept

/-- The margins of the lines that begin outside quotes. -/
def margins (text : List Char) : List Margin :=
  let s := Reader.initial.run text
  (s.settle s.level).margins

/-! ## Laid out texts -/

/-- A reader outside quotes that is not at the margin of a line. -/
def Reader.within (level : Nat) (kept : List Char) (margins : List Margin) : Reader :=
  ⟨.outside, level, none, kept, margins⟩

/-- Margins of lines under an indent; without an indent there are no lines. -/
structure Indented (n : Nat) (ms : List Margin) : Prop where
  spaces : ∀ m ∈ ms, m.spaces = n * m.level
  none : n = 0 → ms = []

/-- Reading the second text under so many open brackets keeps the first text. It leaves so many brackets
open and meets indented lines only. -/
def Lays (n level level' : Nat) (compact text : List Char) : Prop :=
  ∀ kept ms, ∃ more, Indented n more ∧
    (Reader.within level kept ms).run text = .within level' (kept ++ compact) (ms ++ more)

/-- A text without line ends outside quotes, that closes what it opens. -/
def Flat (text : List Char) : Prop := ∀ level, Lays 0 level level text text

def isSolid (c : Char) : Bool := c ≠ ' ' && c ≠ '\n' && !closes c

/-- A text that ends the margin in front of it where it begins. -/
def Solid (text : List Char) : Prop := ∃ c ∈ text.head?, isSolid c = true

variable {n level level' level'' : Nat} {a b a' b' : List Char} {c : Char} {kept : List Char} {ms : List Margin}

namespace Indented

theorem nil : Indented n [] := ⟨by simp, by simp⟩

theorem append {ms' : List Margin} (h : Indented n ms) (h' : Indented n ms') : Indented n (ms ++ ms') where
  spaces m hm := (List.mem_append.mp hm).elim (h.spaces m) (h'.spaces m)
  none hn := by rw [h.none hn, h'.none hn, List.append_nil]

theorem line (hn : n ≠ 0) (level : Nat) : Indented n [⟨level * n, level⟩] where
  spaces m hm := by
    rw [List.mem_singleton] at hm
    rw [hm, Nat.mul_comm]
  none h := absurd h hn

end Indented

theorem Reader.run_append (s : Reader) (a b : List Char) : s.run (a ++ b) = (s.run a).run b :=
  List.foldl_append

theorem Reader.run_cons (s : Reader) (c : Char) (text : List Char) : s.run (c :: text) = (s.step c).run text := rfl

namespace Lays

theorem append (h : Lays n level level' a b) (h' : Lays n level' level'' a' b') :
    Lays n level level'' (a ++ a') (b ++ b') := by
  intro kept ms
  obtain ⟨more, hmore, hrun⟩ := h kept ms
  obtain ⟨more', hmore', hrun'⟩ := h' (kept ++ a) (ms ++ more)
  refine ⟨more ++ more', hmore.append hmore', ?_⟩
  rw [Reader.run_append, hrun, hrun', List.append_assoc, List.append_assoc]

theorem of_run (h : ∀ kept ms, (Reader.within level kept ms).run a = .within level' (kept ++ a) ms) :
    Lays n level level' a a := by
  intro kept ms
  refine ⟨[], .nil, ?_⟩
  rw [h, List.append_nil]

theorem opening (h : opens c = true) : Lays n level (level + 1) [c] [c] := by
  apply of_run
  intro kept ms
  simp only [opens, Bool.or_eq_true, decide_eq_true_eq] at h
  rcases h with rfl | rfl <;> rfl

end Lays

namespace Flat

theorem lays (h : Flat a) : Lays n level level a a := by
  apply Lays.of_run
  intro kept ms
  obtain ⟨more, hmore, hrun⟩ := h level kept ms
  rw [hrun, hmore.none rfl, List.append_nil]

theorem of_run (h : ∀ level kept ms, (Reader.within level kept ms).run a = .within level (kept ++ a) ms) : Flat a :=
  fun level => .of_run (h level)

theorem nil : Flat [] := .of_run fun level kept ms => by
  rw [List.append_nil]
  rfl

theorem append (h : Flat a) (h' : Flat a') : Flat (a ++ a') := fun level => (h level).append (h' level)

end Flat

/-! ## Margins -/

theorem newline_natCast (hn : n ≠ 0) (level : Nat) :
    newline n level = '\n' :: List.replicate (level * n) ' ' := by
  have hspaces : ((level : Int) * (n : Int)).toNat = level * n := by
    rw [← Int.natCast_mul, Int.toNat_natCast]
  rw [newline, if_neg (Int.natCast_ne_zero.mpr hn), hspaces]
  rfl

theorem run_spaces (k count : Nat) :
    Reader.run ⟨.outside, level, some k, kept, ms⟩ (List.replicate count ' ') =
      ⟨.outside, level, some (k + count), kept, ms⟩ := by
  induction count generalizing k with
  | zero => rfl
  | succ count ih =>
      rw [List.replicate_succ, Reader.run_cons, Nat.add_comm count 1, ← Nat.add_assoc]
      exact ih (k + 1)

/-- Behind a new line the reader counts its spaces. -/
theorem run_newline (hn : n ≠ 0) (level' : Nat) : (Reader.within level kept ms).run (newline n level') =
    ⟨.outside, level, some (level' * n), kept, ms⟩ := by
  have hstep : (Reader.within level kept ms).step '\n' = ⟨.outside, level, some 0, kept, ms⟩ := rfl
  rw [newline_natCast hn, Reader.run_cons, hstep, run_spaces, Nat.zero_add]

theorem step_solid (h : isSolid c = true) (k : Nat) : Reader.step ⟨.outside, level, some k, kept, ms⟩ c =
    (Reader.within level kept (ms ++ [⟨k, level⟩])).step c := by
  simp only [isSolid, Bool.and_eq_true, Bool.not_eq_true', decide_eq_true_eq, ne_eq] at h
  obtain ⟨⟨hspace, hline⟩, hclosing⟩ := h
  simp only [Reader.within, Reader.step, Reader.stepOutside, hspace, hline, hclosing, and_false, ↓reduceIte,
    Reader.settle, Bool.false_eq_true]

theorem step_closing (h : closes c = true) (k : Nat) : Reader.step ⟨.outside, level + 1, some k, kept, ms⟩ c =
    .within level (kept ++ [c]) (ms ++ [⟨k, level⟩]) := by
  simp only [closes, Bool.or_eq_true, decide_eq_true_eq] at h
  rcases h with rfl | rfl <;> rfl

theorem Solid.run (h : Solid b) (k : Nat) : Reader.run ⟨.outside, level, some k, kept, ms⟩ b =
    (Reader.within level kept (ms ++ [⟨k, level⟩])).run b := by
  obtain ⟨c, hc, hsolid⟩ := h
  cases b with
  | nil => cases hc
  | cons c' rest =>
      cases hc
      rw [Reader.run_cons, Reader.run_cons, step_solid hsolid]

theorem Solid.append (h : Solid a) (b : List Char) : Solid (a ++ b) := by
  obtain ⟨c, hc, hsolid⟩ := h
  refine ⟨c, ?_, hsolid⟩
  simp only [List.head?_append, Option.mem_def] at hc ⊢
  rw [hc, Option.some_or]

namespace Lays

/-- A new line may stand in front of a text, indented by what is open there. -/
theorem line (h : Lays n level level' a b) (hb : Solid b) : Lays n level level' a (newline n level ++ b) := by
  by_cases hn : n = 0
  · subst hn
    rw [Int.natCast_zero, newline_zero]
    exact h
  · intro kept ms
    obtain ⟨more, hmore, hrun⟩ := h kept (ms ++ [⟨level * n, level⟩])
    refine ⟨[⟨level * n, level⟩] ++ more, (Indented.line hn level).append hmore, ?_⟩
    rw [Reader.run_append, run_newline hn, hb.run, hrun, List.append_assoc]

theorem closing (h : closes c = true) : Lays n (level + 1) level [c] (newline n level ++ [c]) := by
  intro kept ms
  by_cases hn : n = 0
  · subst hn
    refine ⟨[], .nil, ?_⟩
    rw [Int.natCast_zero, newline_zero, List.nil_append, List.append_nil]
    simp only [closes, Bool.or_eq_true, decide_eq_true_eq] at h
    rcases h with rfl | rfl <;> rfl
  · refine ⟨_, .line hn level, ?_⟩
    rw [Reader.run_append, run_newline hn, Reader.run_cons, step_closing h]
    rfl

/-- What stands between brackets may end in a new line, indented by what is open behind them. -/
theorem bracket {opening closing : Char} (ho : opens opening = true) (hc : closes closing = true)
    (h : Lays n (level + 1) (level + 1) a b) :
    Lays n level level (opening :: (a ++ [closing])) (opening :: (b ++ (newline n level ++ [closing]))) :=
  (Lays.opening ho).append (h.append (.closing hc))

end Lays

/-! ## Flat texts -/

theorem Flat.bracket {opening closing : Char} (ho : opens opening = true) (hc : closes closing = true) (h : Flat a) :
    Flat (opening :: (a ++ [closing])) := by
  intro level
  have hlays : Lays 0 level level (opening :: (a ++ [closing])) (opening :: (a ++ (newline 0 level ++ [closing]))) :=
    .bracket ho hc h.lays
  rwa [newline_zero, List.nil_append] at hlays

/-- Neither a line end nor a quote nor a bracket. -/
def isInline (c : Char) : Bool := c ≠ '\n' && c ≠ Text.apostrophe && !opens c && !closes c

theorem Flat.of_inline (h : ∀ c ∈ a, isInline c = true) : Flat a := by
  apply Flat.of_run
  intro level kept ms
  induction a generalizing kept with
  | nil =>
      rw [List.append_nil]
      rfl
  | cons c rest ih =>
      have hc := h c List.mem_cons_self
      simp only [isInline, Bool.and_eq_true, Bool.not_eq_true', decide_eq_true_eq, ne_eq] at hc
      obtain ⟨⟨⟨hline, hquote⟩, hopening⟩, hclosing⟩ := hc
      have hstep : (Reader.within level kept ms).step c = .within level (kept ++ [c]) ms := by
        simp [Reader.within, Reader.step, Reader.stepOutside, Reader.settle, Reader.keep, hline, hquote,
          hopening, hclosing]
      rw [Reader.run_cons, hstep, ih fun c hc => h c (List.mem_cons_of_mem _ hc), List.append_assoc]
      rfl

theorem isInline_of_isNumberChar (h : isNumberChar c = true) : isInline c = true := by
  have hplain := numeric_isPlainChar c h
  have hline : c ≠ '\n' := by
    rintro rfl
    exact absurd h (by decide)
  simp only [isPlainChar, isOpening, isClosing, Bool.and_eq_true, Bool.not_eq_true', Bool.or_eq_false_iff,
    decide_eq_true_eq, decide_eq_false_iff_not] at hplain
  obtain ⟨⟨⟨⟨hquote, hopening⟩, hclosing⟩, -⟩, -⟩ := hplain
  simp [isInline, opens, closes, hline, hquote, hopening, hclosing]

theorem flat_of_all {text : List Char} (h : text.all isInline = true) : Flat text :=
  .of_inline (List.all_eq_true.mp h)

theorem run_escape (content rest : List Char) :
    Reader.run ⟨.inside, level, none, kept, ms⟩ (escape content ++ rest) =
      Reader.run ⟨.inside, level, none, kept ++ escape content, ms⟩ rest := by
  induction content generalizing kept with
  | nil => rw [escape, List.append_nil, List.nil_append]
  | cons c content ih =>
      rw [escape]
      split
      · have hsteps : (Reader.step ⟨.inside, level, none, kept, ms⟩ '\\').step c =
            ⟨.inside, level, none, kept ++ ['\\'] ++ [c], ms⟩ := rfl
        rw [List.cons_append, List.cons_append, Reader.run_cons, Reader.run_cons, hsteps, ih]
        simp
      · rename_i hc
        rw [not_or] at hc
        have hstep : Reader.step ⟨.inside, level, none, kept, ms⟩ c = ⟨.inside, level, none, kept ++ [c], ms⟩ := by
          simp only [Reader.step, Reader.keep, hc.1, hc.2, ↓reduceIte]
        rw [List.cons_append, Reader.run_cons, hstep, ih]
        simp

/-- Whatever stands between quotes is kept. -/
theorem flat_quote (content : List Char) : Flat (quote content) := by
  apply Flat.of_run
  intro level kept ms
  have hopen : (Reader.within level kept ms).step Text.apostrophe =
      ⟨.inside, level, none, kept ++ [Text.apostrophe], ms⟩ := rfl
  have hclose (kept : List Char) : Reader.run ⟨.inside, level, none, kept, ms⟩ [Text.apostrophe] =
      .within level (kept ++ [Text.apostrophe]) ms := rfl
  have hquote : quote content = Text.apostrophe :: (escape content ++ [Text.apostrophe]) := rfl
  rw [hquote, Reader.run_cons, hopen, run_escape, hclose]
  simp

theorem solid_quote (content : List Char) : Solid (quote content) :=
  ⟨Text.apostrophe, rfl, by decide⟩

theorem Flat.of_numeric {text : List Char} (h : ∀ c ∈ text, isNumeralChar c = true) : Flat text :=
  .of_inline fun c hc => isInline_of_isNumberChar (by rw [isNumberChar, h c hc, Bool.true_or])

/-! ## Paths -/

namespace Path

variable {p : Path}

theorem flat_root : Flat Path.root.text := flat_of_all (by decide)

theorem flat_arrow (p : Path) : Flat p.arrow := by
  unfold arrow
  split
  · exact flat_of_all (by decide)
  · exact .nil

theorem flat_target (h : Flat p.text) : Flat (Path.target p).text := by
  have hdollar : Flat ['$'] := flat_of_all (by decide)
  exact hdollar.append (.bracket (by decide) (by decide) h)

theorem flat_item (h : Flat p.text) (index : Nat) : Flat (Path.item p index).text := by
  have hindex : Flat (Nat.toDigits 10 index) := .of_numeric fun c hc =>
    isNumeralChar_of_isDigit (Nat.isDigit_of_mem_toDigits (by decide) (by decide) hc)
  simpa [text] using (h.append p.flat_arrow).append (.bracket (by decide) (by decide) hindex)

theorem flat_entry {key : List Char} (h : Flat p.text) (hkey : Flat key) : Flat (Path.entry p key).text := by
  simpa [text] using (h.append p.flat_arrow).append (.bracket (by decide) (by decide) hkey)

end Path

/-! ## Keys -/

/-- A text that stands for a key on one line. -/
structure Keyed (key : List Char) : Prop where
  flat : Flat key
  solid : Solid key

theorem keyed_quote (content : List Char) : Keyed (quote content) := ⟨flat_quote content, solid_quote content⟩

theorem keyed_digit (b : Bool) : Keyed [if b then '1' else '0'] := by
  cases b <;> exact ⟨flat_of_all (by decide), _, rfl, by decide⟩

theorem isSolid_of_isNumberChar (h : isNumberChar c = true) : isSolid c = true := by
  have hinline := isInline_of_isNumberChar h
  have hspace : c ≠ ' ' := by
    rintro rfl
    exact absurd h (by decide)
  simp only [isInline, Bool.and_eq_true, decide_eq_true_eq] at hinline
  obtain ⟨⟨⟨hline, -⟩, -⟩, hclosing⟩ := hinline
  simp [isSolid, hspace, hline, hclosing]

theorem keyed_of_isNumberChar {key : List Char} (hne : key ≠ []) (h : ∀ c ∈ key, isNumberChar c = true) :
    Keyed key where
  flat := .of_inline fun c hc => isInline_of_isNumberChar (h c hc)
  solid := by
    obtain ⟨c, rest, rfl⟩ := List.exists_cons_of_ne_nil hne
    exact ⟨c, rfl, isSolid_of_isNumberChar (h c List.mem_cons_self)⟩

/-- The text of a number is a key on one line, if the payload of one that is none consists of digits. -/
theorem keyed_number (n : Number) (h : ∀ negative signaling payload,
    n = .decimal (.nan negative signaling payload) → Consists Char.isDigit payload) : Keyed n.text.toList := by
  have hpayload (negative signaling payload)
      (hn : n = .decimal (.nan negative signaling payload)) : Consists isNumberChar payload :=
    (h negative signaling payload hn).mono fun c hc => by
      rw [isNumberChar, isNumeralChar_of_isDigit hc, Bool.true_or]
  by_cases hd : ∃ address, n = .declared address
  · obtain ⟨address, rfl⟩ := hd
    rw [Number.text]
    exact ⟨flat_of_all (by decide), '<', rfl, by decide⟩
  rcases consists_number (fun _ hc => hc) n hpayload (not_exists.mp hd) with hchars | ⟨inner, hinner, htext⟩
  · exact keyed_of_isNumberChar (fun he => number_ne_empty n (String.toList_eq_nil_iff.mp he)) hchars
  · have hopening : Flat ['('] := flat_of_all (by decide)
    have hclosing : Flat [')'] := flat_of_all (by decide)
    have hflat : Flat inner.toList := .of_inline fun c hc => isInline_of_isNumberChar (hinner c hc)
    have hlist : n.text.toList = ['('] ++ (inner.toList ++ [')']) := by
      rw [htext, String.toList_append, String.toList_append]
      simp
    rw [hlist]
    exact ⟨hopening.append (hflat.append hclosing), '(', rfl, by decide⟩

/-! ## Terms -/

namespace Term

/-- A term with keys and paths that stand on one line. -/
inductive Neat : Term → Prop where
  | leaf {t} : t.Leaf → Neat t
  | path {p : Path} : Flat p.text → Neat (.path p)
  | reference {t} : Neat t → Neat (.reference t)
  | array {items} : (∀ t ∈ items, Neat t) → Neat (.array items)
  | hash {entries} : (∀ e ∈ entries, Keyed e.1) → (∀ e ∈ entries, Neat e.2) → Neat (.hash entries)
  | blessed {t} (cls) : Neat t → Neat (.blessed t cls)

variable {t : Term} {m : Nat}

theorem Leaf.exists_text (h : t.Leaf) :
    ∃ text, Flat text ∧ Solid text ∧ ∀ (indent : Int) level, t.chars indent level = text := by
  cases h with
  | undefined => exact ⟨undefinedText, flat_of_all (by decide), ⟨'u', rfl, by decide⟩, fun _ _ => by rw [chars]⟩
  | @bare text hne h =>
      have hkeyed : Keyed text := keyed_of_isNumberChar hne fun c hc => by
        rw [isNumberChar, h c hc, Bool.true_or]
      exact ⟨text, hkeyed.flat, hkeyed.solid, fun _ _ => by rw [chars]⟩
  | quoted content => exact ⟨quote content, flat_quote content, solid_quote content, fun _ _ => by rw [chars]⟩
  | code =>
      have hbraces : codeText = "sub ".toList ++ '\x7b' :: (" \"DUMMY\" ".toList ++ ['\x7d']) := by decide
      have hsub : Flat "sub ".toList := flat_of_all (by decide)
      have hblock : Flat ('\x7b' :: (" \"DUMMY\" ".toList ++ ['\x7d'])) :=
        .bracket (by decide) (by decide) (flat_of_all (by decide))
      exact ⟨codeText, hbraces ▸ hsub.append hblock, ⟨'s', rfl, by decide⟩, fun _ _ => by rw [chars]⟩

namespace Neat

theorem solid (h : Neat t) (indent : Int) (level : Nat) : Solid (t.chars indent level) := by
  cases h with
  | leaf h =>
      obtain ⟨text, -, hsolid, htext⟩ := h.exists_text
      rw [htext]
      exact hsolid
  | @path p _ =>
      obtain ⟨rest, hrest⟩ := Path.exists_dollar p
      rw [chars, hrest]
      exact ⟨'$', rfl, by decide⟩
  | reference _ =>
      rw [chars]
      exact ⟨'\\', rfl, by decide⟩
  | @array items _ => cases items <;> exact ⟨'[', rfl, by decide⟩
  | @hash entries _ _ => cases entries <;> exact ⟨'\x7b', rfl, by decide⟩
  | blessed cls _ =>
      rw [chars]
      exact ⟨'b', rfl, by decide⟩

end Neat

theorem lays_comma : Lays n level level [','] [','] := by
  have hflat : Flat [','] := flat_of_all (by decide)
  exact hflat.lays

theorem lays_items {items : List Term} (hsolid : ∀ t ∈ items, Solid (t.chars n level))
    (h : ∀ t ∈ items, Lays n level level (t.chars 0 m) (t.chars n level)) :
    Lays n level level (itemChars 0 m items) (itemChars n level items) := by
  induction items with
  | nil => exact Flat.nil.lays
  | cons t rest ih =>
      have hrest := ih (fun t ht => hsolid t (List.mem_cons_of_mem _ ht)) fun t ht => h t (List.mem_cons_of_mem _ ht)
      have hitem := (h t List.mem_cons_self).line (hsolid t List.mem_cons_self)
      simpa [itemChars] using (lays_comma.append hitem).append hrest

theorem lays_entry {key : List Char} (hkey : Keyed key) (h : Lays n level level (t.chars 0 m) (t.chars n level)) :
    Lays n level level (key ++ keyArrow ++ t.chars 0 m) (newline n level ++ (key ++ keyArrow ++ t.chars n level)) := by
  have harrow : Flat keyArrow := flat_of_all (by decide)
  exact ((hkey.flat.append harrow).lays.append h).line ((hkey.solid.append _).append _)

theorem lays_entries {entries : List (List Char × Term)} (hkeys : ∀ e ∈ entries, Keyed e.1)
    (h : ∀ e ∈ entries, Lays n level level (e.2.chars 0 m) (e.2.chars n level)) :
    Lays n level level (entryChars 0 m entries) (entryChars n level entries) := by
  induction entries with
  | nil => exact Flat.nil.lays
  | cons e rest ih =>
      have hrest := ih (fun e he => hkeys e (List.mem_cons_of_mem _ he)) fun e he => h e (List.mem_cons_of_mem _ he)
      have hentry := lays_entry (hkeys e List.mem_cons_self) (h e List.mem_cons_self)
      simpa [entryChars] using (lays_comma.append hentry).append hrest

namespace Neat

/-- Under any indent a neat term lays out its compact text. -/
theorem lays (h : Neat t) (m level : Nat) : Lays n level level (t.chars 0 m) (t.chars n level) := by
  -- The compact text may stand at another level `m`: what is flat has to be so wherever a key puts it.
  induction h generalizing m level with
  | leaf h =>
      obtain ⟨text, hflat, -, htext⟩ := h.exists_text
      rw [htext, htext]
      exact hflat.lays
  | path h =>
      rw [chars, chars]
      exact h.lays
  | reference _ ih =>
      have hslash : Flat ['\\'] := flat_of_all (by decide)
      exact hslash.lays.append (ih m level)
  | @array items hitems ih =>
      cases items with
      | nil =>
          have hempty : Flat ('[' :: ([] ++ [']'])) := .bracket (by decide) (by decide) .nil
          exact hempty.lays
      | cons t rest =>
          have hfirst := (ih t List.mem_cons_self (m + 1) (level + 1)).line
            ((hitems t List.mem_cons_self).solid n (level + 1))
          have hrest := lays_items (fun t ht => (hitems t (List.mem_cons_of_mem _ ht)).solid n (level + 1))
            fun t ht => ih t (List.mem_cons_of_mem _ ht) (m + 1) (level + 1)
          have hopening : opens '[' = true := by decide
          have hclosing : closes ']' = true := by decide
          simpa [chars] using (hfirst.append hrest).bracket hopening hclosing
  | @hash entries hkeys _ ih =>
      cases entries with
      | nil =>
          have hempty : Flat ('\x7b' :: ([] ++ ['\x7d'])) := .bracket (by decide) (by decide) .nil
          exact hempty.lays
      | cons e rest =>
          have hfirst := lays_entry (hkeys e List.mem_cons_self) (ih e List.mem_cons_self (m + 1) (level + 1))
          have hrest := lays_entries (fun e he => hkeys e (List.mem_cons_of_mem _ he))
            fun e he => ih e (List.mem_cons_of_mem _ he) (m + 1) (level + 1)
          have hopening : opens '\x7b' = true := by decide
          have hclosing : closes '\x7d' = true := by decide
          simpa [chars] using (hfirst.append hrest).bracket hopening hclosing
  | blessed cls _ ih =>
      have hopening : Flat blessOpening := flat_of_all (by decide)
      have hcomma : Flat classComma := flat_of_all (by decide)
      have hclosing : Flat blessClosing := flat_of_all (by decide)
      have hcls := hcomma.append ((flat_quote cls).append hclosing)
      simpa [chars] using (hopening.lays.append (ih m level)).append hcls.lays

/-- The compact text does not depend on where the term stands. -/
theorem chars_zero (h : Neat t) (m m' : Nat) : t.chars 0 m = t.chars 0 m' := by
  obtain ⟨_, _, hread⟩ := h.lays (n := 0) m 0 [] []
  obtain ⟨_, _, hread'⟩ := h.lays (n := 0) m' 0 [] []
  rw [hread] at hread'
  exact congrArg Reader.kept hread'

/-- The compact text of a neat term is a key on one line. -/
theorem keyed (h : Neat t) (m : Nat) : Keyed (t.chars 0 m) where
  flat level := by
    have hlays : Lays 0 level level (t.chars 0 m) (t.chars 0 level) := h.lays m level
    rwa [h.chars_zero level m] at hlays
  solid := h.solid 0 m

end Neat

end Term

/-- A text that lays out another one is joined to it, and the margins of its lines are those of the indent. -/
theorem Lays.joined (h : Lays n 0 level a b) : joined b = a ∧ ∀ m ∈ margins b, m.spaces = n * m.level := by
  obtain ⟨more, hmore, hrun⟩ := h [] []
  have hread : Reader.initial.run b = .within level a more := hrun
  constructor
  · rw [Perl.joined, hread]
    rfl
  · rw [margins, hread]
    exact hmore.spaces

example : joined "[\n  ' ]\n',\n  []\n]".toList = "[' ]\n',[]]".toList ∧
    margins "[\n  ' ]\n',\n  []\n]".toList = [⟨2, 1⟩, ⟨2, 1⟩, ⟨0, 0⟩] := by decide

end Introspect.Perl
