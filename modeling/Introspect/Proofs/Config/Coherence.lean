import Introspect.Config.Basic
import Introspect.Proofs.Pairs
import Introspect.Proofs.World.Settles
/-!
The cache of properties files. Whatever happens between two lookups, the cache holds only what some earlier state had at
the path with the modification time that is kept with it; so while equal times at a path mean equal contents, a lookup
answers as it would without a cache.
-/
namespace Introspect.Config

variable {α β : Type} {c start : Config} {seen : List Config} {events : List Event} {file file' : Option File} {path key : String}

/-- What happens to a configuration: changes from outside, and lookups. -/
inductive Event where
  | setVariable (name value : String)
  | unsetVariable (name : String)
  | write (path : String) (file : File)
  | remove (path : String)
  | reload
  | props (path : String)
  | lookup (key : String)

/-- What a lookup answers. -/
def answer (x : Act α) (c : Config) : Except Fault α :=
  match x c with
  | .ok a _ => .ok a
  | .error fault _ => .error fault

/-- The configuration after a lookup, also after one that failed. -/
def after (x : Act α) (c : Config) : Config :=
  match x c with
  | .ok _ c' => c'
  | .error _ c' => c'

def Event.apply (c : Config) : Event → Config
  | .setVariable name value => c.setVariable name value
  | .unsetVariable name => c.unsetVariable name
  | .write path file => c.write path file
  | .remove path => c.remove path
  | .reload => c.reload
  | .props path => after (Config.props path) c
  | .lookup key => after (value? key) c

def run (c : Config) (events : List Event) : Config := events.foldl Event.apply c

/-- The states a run goes through, from the first to the last. -/
def states (c : Config) : List Event → List Config
  | [] => [c]
  | e :: rest => c :: states (e.apply c) rest

/-- Equal modification times at a path mean equal contents. -/
def Stamped (seen : List Config) : Prop :=
  ∀ a ∈ seen, ∀ b ∈ seen, ∀ path f g, a.files.lookup path = some f → b.files.lookup path = some g →
    f.modified = g.modified → f.content = g.content

/-- The variable for a key, if it is not empty. -/
def override? (c : Config) (key : String) : Option String := (c.environment.lookup (variableFor key)).filter (· ≠ "")

/-- The properties of a path as they are now; none at all if there is no such file. -/
def freshProps (c : Config) (path : String) : Except Fault Props := do propsOf path (← c.file? path)

/-- The value of a key for a caller that uses `d` where there is none. -/
def valueOr (d : α) (ofText : String → α) (key : String) : Act α := return (← value? key).elim d ofText

/-- The value of a key read from the file as it is now. -/
def uncached (d : α) (ofText : String → α) (key : String) (c : Config) : Except Fault α :=
  match c.override? key with
  | some value => .ok (ofText value)
  | none => do return ((← c.freshProps (Path.join c.workDir propsPath)).lookup key).elim d ofText

/-! ## What the cache holds -/

/-- An entry of the cache is what one of the states had at the path. -/
def Recorded (seen : List Config) (path : String) (stamp : Option Rat) (props : Props) : Prop :=
  ∃ past ∈ seen, ∃ file, past.file? path = .ok file ∧ file.map (·.modified) = stamp ∧ propsOf path file = .ok props

def Remembers (seen : List Config) (c : Config) : Prop :=
  ∀ path stamp props, c.cache.lookup path = some (stamp, props) → Recorded seen path stamp props

theorem Remembers.of_cache_eq {c' : Config} (h : Remembers seen c) (hcache : c'.cache = c.cache) : Remembers seen c' := by
  intro path stamp props hentry
  exact h path stamp props (hcache ▸ hentry)

theorem remembers_of_empty (h : c.cache = []) : Remembers seen c := by
  intro path stamp props hentry
  rw [h] at hentry
  exact absurd hentry (Option.some_ne_none _).symm

/-! ## One lookup -/

theorem freshProps_eq (h : c.file? path = .ok file) : c.freshProps path = propsOf path file := by
  rw [freshProps, h]
  rfl

theorem lookup_of_cached? {modified : Option Rat} {found : Props} (h : c.cached? path modified = some found) :
    c.cache.lookup path = some (modified, found) := by
  rw [cached?] at h
  split at h
  · rename_i hentry
    split at h
    · rename_i hstamp
      rw [hentry, hstamp, Option.some.inj h]
    · exact absurd h (Option.some_ne_none _).symm
  · exact absurd h (Option.some_ne_none _).symm

/-- A lookup takes what the cache has with the time of the file, or reads the file and remembers it, or fails as a fresh
one does. -/
theorem props_cases {full : String} (h : Path.join c.workDir path = full) :
    (∃ file found, c.file? full = .ok file ∧ c.cache.lookup full = some (file.map (·.modified), found) ∧
      props path c = .ok found c) ∨
    (∃ file found, c.file? full = .ok file ∧ propsOf full file = .ok found ∧
      props path c = .ok found { c with cache := Pairs.put full (file.map (·.modified), found) c.cache }) ∨
    ∃ fault, c.freshProps full = .error fault ∧ props path c = .error fault c := by
  rw [props, World.run_get, h]
  cases hfile : c.file? full with
  | error fault => exact .inr (.inr ⟨fault, by rw [freshProps, hfile]; rfl, rfl⟩)
  | ok file =>
      cases hcached : c.cached? full (file.map (·.modified)) with
      | some found => exact .inl ⟨file, found, rfl, lookup_of_cached? hcached, by simp only [hcached]; rfl⟩
      | none =>
          cases hread : propsOf full file with
          | ok found => exact .inr (.inl ⟨file, found, rfl, hread, by simp only [hcached, hread]; rfl⟩)
          | error fault =>
              exact .inr (.inr ⟨fault, by rw [freshProps_eq hfile, hread], by simp only [hcached, hread]; rfl⟩)

/-- No file is read where a variable names the value. -/
theorem value?_of_override {value : String} (h : c.override? key = some value) : value? key c = .ok (some value) c := by
  obtain ⟨hlookup, hne⟩ := Option.filter_eq_some_iff.mp h
  rw [value?, World.run_get, hlookup]
  simp only [if_pos (of_decide_eq_true hne)]
  rfl

theorem value?_of_no_override (h : c.override? key = none) :
    value? key c = ((·.lookup key) <$> Config.props propsPath) c := by
  cases hlookup : c.environment.lookup (variableFor key) with
  | none =>
      rw [value?, World.run_get, hlookup]
      rfl
  | some value =>
      have hempty : ¬ value ≠ "" := by simpa [override?, hlookup] using h
      rw [value?, World.run_get, hlookup]
      simp only [if_neg hempty]
      rfl

theorem after_map (f : α → β) (x : Act α) (c : Config) : after (f <$> x) c = after x c := by
  simp only [after, Functor.map, EStateM.map]
  cases x c <;> rfl

theorem answer_map (f : α → β) (x : Act α) (c : Config) : answer (f <$> x) c = f <$> answer x c := by
  simp only [answer, Functor.map, EStateM.map]
  cases x c <;> rfl

theorem Remembers.props (h : Remembers seen c) (hc : c ∈ seen) : Remembers seen (after (props path) c) := by
  obtain ⟨file, found, -, -, hprops⟩ | ⟨file, found, hfile, hread, hprops⟩ | ⟨fault, -, hprops⟩ := props_cases (c := c) rfl
  · rw [after, hprops]
    exact h
  · rw [after, hprops]
    intro path' stamp props hentry
    rw [Pairs.lookup_put] at hentry
    split at hentry
    · rename_i hpath
      cases hentry
      exact ⟨c, hc, file, hpath ▸ hfile, rfl, hpath ▸ hread⟩
    · exact h path' stamp props hentry
  · rw [after, hprops]
    exact h

theorem propsOf_eq_of_stamp (h : file.map (·.modified) = file'.map (·.modified))
    (hcontent : ∀ f g, file = some f → file' = some g → f.modified = g.modified → f.content = g.content) :
    propsOf path file = propsOf path file' := by
  cases file with
  | none =>
      cases file' with
      | none => rfl
      | some g => simp at h
  | some f =>
      cases file' with
      | none => simp at h
      | some g =>
        have hm := hcontent f g rfl rfl (Option.some.inj h)
        simp only [propsOf, readFile, hm]

theorem Remembers.value (h : Remembers seen c) (hc : c ∈ seen) : Remembers seen (after (value? key) c) := by
  cases hvalue : c.override? key with
  | some value =>
      rw [after, value?_of_override hvalue]
      exact h
  | none =>
      have hafter : after (value? key) c = after ((·.lookup key) <$> Config.props propsPath) c := by
        rw [after, value?_of_no_override hvalue]
        rfl
      rw [hafter, after_map]
      exact h.props hc

/-! ## A run -/

theorem Remembers.apply (h : Remembers seen c) (hc : c ∈ seen) (e : Event) : Remembers seen (e.apply c) := by
  cases e with
  | setVariable name value => exact h.of_cache_eq rfl
  | unsetVariable name => exact h.of_cache_eq rfl
  | write path file => exact h.of_cache_eq rfl
  | remove path => exact h.of_cache_eq rfl
  | reload => exact remembers_of_empty rfl
  | props path => exact h.props hc
  | lookup key => exact h.value hc

theorem Remembers.run (h : Remembers seen c) (hseen : ∀ s ∈ states c events, s ∈ seen) : Remembers seen (run c events) := by
  induction events generalizing c with
  | nil => exact h
  | cons e rest ih =>
      have hc := hseen c List.mem_cons_self
      exact ih (h.apply hc e) fun s hs => hseen s (List.mem_cons_of_mem _ hs)

theorem run_mem_states (c : Config) (events : List Event) : run c events ∈ states c events := by
  induction events generalizing c with
  | nil => exact List.mem_singleton_self c
  | cons e rest ih => exact List.mem_cons_of_mem _ (ih (e.apply c))

/-! ## Answers -/

theorem lookup_of_file? {f : File} (h : c.file? path = .ok (some f)) : c.files.lookup path = some f := by
  rw [file?] at h
  cases hlookup : c.files.lookup path with
  | some g =>
      rw [hlookup] at h
      exact Except.ok.inj h
  | none =>
      simp only [hlookup] at h
      split at h
      · cases h
      · cases h

/-- While equal times mean equal contents, what the cache has is what the file has. -/
theorem answer_props (h : Remembers seen c) (hc : c ∈ seen) (hstamped : Stamped seen) (path : String) :
    answer (props path) c = c.freshProps (Path.join c.workDir path) := by
  obtain ⟨file, found, hfile, hentry, hprops⟩ | ⟨file, found, hfile, hread, hprops⟩ | ⟨fault, hfresh, hprops⟩ :=
    props_cases (rfl : Path.join c.workDir path = _)
  · obtain ⟨past, hpast, file', hfile', hstamp, hread⟩ := h _ _ _ hentry
    have hsame : propsOf (Path.join c.workDir path) file = propsOf (Path.join c.workDir path) file' := by
      apply propsOf_eq_of_stamp hstamp.symm
      rintro f g rfl rfl
      exact hstamped c hc past hpast _ f g (lookup_of_file? hfile) (lookup_of_file? hfile')
    rw [answer, hprops, freshProps_eq hfile, hsame, hread]
  · rw [answer, hprops, freshProps_eq hfile, hread]
  · rw [answer, hprops, hfresh]

theorem answer_valueOr (h : Remembers seen c) (hc : c ∈ seen) (hstamped : Stamped seen) (d : α) (ofText : String → α)
    (key : String) : answer (valueOr d ofText key) c = uncached d ofText key c := by
  have hmap : valueOr d ofText key = (·.elim d ofText) <$> value? key := bind_pure_comp _ _
  rw [hmap, answer_map, uncached]
  cases hvalue : c.override? key with
  | some value =>
      rw [answer, value?_of_override hvalue]
      rfl
  | none =>
      have hanswer : answer (value? key) c = answer ((·.lookup key) <$> Config.props propsPath) c := by
        rw [answer, value?_of_no_override hvalue]
        rfl
      rw [hanswer, answer_map, answer_props h hc hstamped]
      cases hfresh : c.freshProps (Path.join c.workDir propsPath) with
      | error fault => rfl
      | ok found => rfl

/-- A lookup after any run answers as it would without a cache: with the variable unless it is empty, else with what the
file under the current home says, else with the default; it fails just as reading that file does. -/
theorem answer_valueOr_run (hstart : start.cache = []) (h : Stamped (states start events)) (key : String) (d : α)
    (ofText : String → α) : answer (valueOr d ofText key) (run start events) = uncached d ofText key (run start events) :=
  answer_valueOr ((remembers_of_empty hstart).run fun _ hs => hs) (run_mem_states start events) h d ofText key

theorem stamped_of_files (h : ∀ a ∈ seen, ∀ b ∈ seen, ∀ x ∈ a.files, ∀ y ∈ b.files, x.1 = y.1 →
    x.2.modified = y.2.modified → x.2.content = y.2.content) : Stamped seen := by
  intro a ha b hb path f g hf hg
  exact h a ha b hb _ (Pairs.mem_of_lookup hf) _ (Pairs.mem_of_lookup hg) rfl

/-- An absent file, a file that cannot be parsed, another home and a file that comes back with its time. -/
def visits : List Event :=
  [.lookup "a", .write "/h/etc/objmeta/config.props" ⟨"a=1".toUTF8.toList, 1⟩, .lookup "a",
    .write "/h/etc/objmeta/config.props" ⟨"a".toUTF8.toList, 2⟩, .lookup "a", .setVariable homeVariable "/g", .lookup "a",
    .setVariable homeVariable "/h", .write "/h/etc/objmeta/config.props" ⟨"a=1".toUTF8.toList, 1⟩]

def home : Config := { environment := [(homeVariable, "/h")], directory := "/", files := [], cache := [] }

theorem answer_valueOr_run_visits :
    answer (valueOr "0" id "a") (run home (visits.take 4)) =
        .error (.badProps "/h/etc/objmeta/config.props" 1 "a") ∧
      answer (valueOr "0" id "a") (run home visits) = .ok "1" := by
  have hstamped : Stamped (states home visits) := by
    apply stamped_of_files
    decide +kernel
  have hstamped' : Stamped (states home (visits.take 4)) := by
    apply stamped_of_files
    decide +kernel
  rw [answer_valueOr_run rfl hstamped, answer_valueOr_run rfl hstamped']
  decide +kernel

end Introspect.Config
