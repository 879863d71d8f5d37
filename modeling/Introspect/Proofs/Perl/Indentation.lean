import Introspect.Proofs.Perl.Layout
import Introspect.Proofs.Perl.Proper
/-!
Indentation is layout. Whatever programs do while a value is written, its terms are neat as long as the keys
that are numbers are of the host's own classes; so every indent lays out the compact text.
-/
namespace Introspect.Perl

open World

/-! ## What writing comes to -/

/-- What an object holds apart from its fields. -/
def held (v : World) (c : Ref) : List Ref :=
  match v.body c with
  | .box d _ => [d]
  | .mapping entries => entries.map (·.1) ++ entries.map (·.2)
  | .members items => items
  | _ => (v.items? c).getD []

/-- What writing asks the world about a value, the world that leaves, and the values that are found. -/
inductive Asks (v : World) (c : Ref) : World → List Ref → Prop where
  | value {a t u} : v.body c = .atom a → atomTerm c a v = .ok t u → Asks v c u []
  | key {n s u} : v.body c = .atom (.number n) → Dispatch.ask.textOf c v = .ok s u → Asks v c u []
  | fields {pairs u} : v.isObject c = true → fields c v = .ok pairs u → Asks v c u (pairs.map (·.2))
  | name {s u} : Registry.qnameOf c v = .ok s u → Asks v c u []

/-- The values that writing a value may come to, each in the worlds in which it may do so. What is asked about
them may run programs, which leave other worlds. -/
inductive Meets (w : World) (r : Ref) : World → Ref → Prop where
  | start : Meets w r w r
  | part {v c d} : Meets w r v c → d ∈ held v c → Meets w r v d
  | found {v c u ds d} : Meets w r v c → Asks v c u ds → d ∈ ds → Meets w r u d
  | later {v c u ds d} : Meets w r v c → Asks v c u ds → Meets w r v d → Meets w r u d

def MeetsKey (w : World) (r k : Ref) : Prop :=
  ∃ v c entries x, Meets w r v c ∧ v.body c = .mapping entries ∧ (k, x) ∈ entries

/-- Numbers among the keys that writing comes to are of the host's own classes. The payload of one that is none
consists of digits. -/
def MeetsBuiltinKeys (w : World) (r : Ref) : Prop :=
  ∀ k, MeetsKey w r k → ∀ v, Meets w r v k → ∀ n, v.body k = .atom (.number n) →
    v.classOf k = .native (atomClass (.number n)) ∧ ∀ negative signaling payload,
      n = .decimal (.nan negative signaling payload) → Consists Char.isDigit payload

/-- What was met in the one world is met in the other. -/
def Lasts (w : World) (r : Ref) (v u : World) : Prop := ∀ d, Meets w r v d → Meets w r u d

variable {w v u : World} {r c k : Ref} {active : Active} {p : Path} {t : Term}

theorem mem_held_items {items : List Ref} {d : Ref} (hi : v.items? c = some items) (hd : d ∈ items) : d ∈ held v c := by
  have hi' := hi
  unfold items? at hi'
  unfold held
  cases hb : v.body c <;> simp_all

theorem Lasts.refl (v : World) : Lasts w r v v := fun _ h => h

theorem Lasts.trans {v' : World} (h : Lasts w r v u) (h' : Lasts w r u v') : Lasts w r v v' :=
  fun d hd => h' d (h d hd)

theorem Meets.lasts {ds : List Ref} (h : Meets w r v c) (ha : Asks v c u ds) : Lasts w r v u :=
  fun _ => .later h ha

/-! ## One step of a run -/

section Cases

variable {recur : Active → Path → Ref → Act Term} {q : Path}

theorem contentTerm_mapping {entries : List (Ref × Ref)} (hb : v.body c = .mapping entries) :
    contentTerm recur active p c v =
      (do hashTerm recur active p (← entries.mapM fun e => do return (← keyLiteral recur e.1, e.2)) : Act Term) v := by
  rw [contentTerm, run_get, hb]

theorem contentTerm_members {items : List Ref} (hb : v.body c = .members items) :
    contentTerm recur active p c v = membersTerm recur active p items v := by
  rw [contentTerm, run_get, hb]

theorem contentTerm_items {items : List Ref} (hi : v.items? c = some items) :
    contentTerm recur active p c v = arrayTerm recur active p items v := by
  have hi' := hi
  unfold items? at hi'
  rw [contentTerm, run_get, hi]
  cases hb : v.body c <;> simp_all

theorem contentTerm_fields (ho : v.isObject c = true) : contentTerm recur active p c v =
    (do hashTerm recur active p ((← fields c).map fun e => (quote e.1.toList, e.2)) : Act Term) v := by
  have ho' := ho
  unfold isObject at ho'
  rw [contentTerm, run_get, items?_of_isObject ho]
  cases hb : v.body c <;> simp_all

theorem term_again (hleaf : isLeaf v c = false) (hl : active.lookup c = some q) :
    term recur active p c v = .ok (.path q) v := by
  unfold isLeaf at hleaf
  rw [term, run_get]
  cases hb : v.body c <;> simp_all <;> rfl

theorem term_box {x : Ref} {tainted : Bool} (hb : v.body c = .box x tainted) (hl : active.lookup c = none) :
    term recur active p c v = (do return .reference (← recur ((c, p) :: active) (.target p) x) : Act Term) v := by
  rw [term, run_get, hb]
  simp only [hl]

theorem term_content (hleaf : isLeaf v c = false) (hbox : ∀ x tainted, v.body c ≠ .box x tainted)
    (hl : active.lookup c = none) : term recur active p c v = referenceTerm recur ((c, p) :: active) p c v := by
  unfold isLeaf at hleaf
  rw [term, run_get]
  simp only [hl]
  clear hl
  cases hb : v.body c <;> simp_all

end Cases

/-! ## Runs that write neatly -/

/-- The texts that parts are ordered by, taken one after the other, stand for the parts on one line each. -/
theorem literals {α : Type} {l : List α} {literal : Ref → Act (List Char)} {key value : α → Ref}
    {pairs : List (List Char × Ref)}
    (hliteral : ∀ x ∈ l, ∀ {v text u}, Meets w r v (key x) → literal (key x) v = .ok text u →
      Keyed text ∧ Lasts w r v u)
    (hl : ∀ x ∈ l, Meets w r v (key x)) (h : (l.mapM fun x => do return (← literal (key x), value x)) v = .ok pairs u) :
    (∀ y ∈ pairs, Keyed y.1 ∧ ∃ x ∈ l, value x = y.2) ∧ Lasts w r v u := by
  induction l generalizing v pairs with
  | nil =>
      cases h
      exact ⟨by simp, .refl _⟩
  | cons x rest ih =>
      rw [List.mapM_cons] at h
      obtain ⟨y, v', hy, h⟩ := run_bind h
      obtain ⟨text, v'', htext, hy⟩ := run_bind hy
      cases hy
      obtain ⟨found, u', hfound, h⟩ := run_bind h
      cases h
      obtain ⟨hkeyed, hlasts⟩ := hliteral x List.mem_cons_self (hl x List.mem_cons_self) htext
      obtain ⟨hrest, hlasts'⟩ := ih (fun x hx => hliteral x (List.mem_cons_of_mem _ hx))
        (fun x hx => hlasts _ (hl x (List.mem_cons_of_mem _ hx))) hfound
      refine ⟨List.forall_mem_cons.mpr ⟨⟨hkeyed, x, List.mem_cons_self, rfl⟩, fun y hy => ?_⟩, hlasts.trans hlasts'⟩
      obtain ⟨hkey, x', hx', hvalue⟩ := hrest y hy
      exact ⟨hkey, x', List.mem_cons_of_mem _ hx', hvalue⟩

theorem neat_leaf (hc : Meets w r v c) (hleaf : isLeaf v c = true) (h : term recur active p c v = .ok t u) :
    t.Neat ∧ Lasts w r v u := by
  rw [term, run_get] at h
  unfold isLeaf at hleaf
  cases hb : v.body c with
  | atom a =>
      rw [hb] at h
      exact ⟨.leaf (leaf_of_run hb h), hc.lasts (.value hb h)⟩
  | cls x =>
      rw [hb] at h
      cases h
      exact ⟨.leaf (.quoted _), .refl v⟩
  | routine _ =>
      rw [hb] at h
      cases h
      exact ⟨.leaf .code, .refl v⟩
  | bound _ _ =>
      rw [hb] at h
      cases h
      exact ⟨.leaf .code, .refl v⟩
  | partialCall _ =>
      rw [hb] at h
      cases h
      exact ⟨.leaf .code, .refl v⟩
  | methodWrapper =>
      rw [hb] at h
      cases h
      exact ⟨.leaf .code, .refl v⟩
  | _ => rw [hb] at hleaf; cases hleaf

/-- The runs below paths on one line that write what is met write it neatly. -/
def Neatly (w : World) (r : Ref) (recur : Active → Path → Ref → Act Term) : Prop :=
  ∀ {active p c v t u}, (∀ x q, active.lookup x = some q → Flat q.text) → Flat p.text → Meets w r v c →
    recur active p c v = .ok t u → t.Neat ∧ Lasts w r v u

section Children

variable {recur : Active → Path → Ref → Act Term} (hrecur : Neatly w r recur)
include hrecur

theorem keyed_compact {key : List Char} (hc : Meets w r v c) (h : compact recur c v = .ok key u) :
    Keyed key ∧ Lasts w r v u := by
  obtain ⟨t, u', ht, h⟩ := run_bind h
  cases h
  obtain ⟨hneat, hlasts⟩ := hrecur (fun x q hx => by cases hx) Path.flat_root hc ht
  exact ⟨hneat.keyed 0, hlasts⟩

theorem keyed_keyLiteral {key : List Char} (hK : MeetsBuiltinKeys w r) (hk : MeetsKey w r k) (hc : Meets w r v k)
    (h : keyLiteral recur k v = .ok key u) : Keyed key ∧ Lasts w r v u := by
  rw [keyLiteral, run_get] at h
  cases ha : v.atom? k with
  | none =>
      rw [ha] at h
      exact keyed_compact hrecur hc h
  | some a =>
      rw [ha] at h
      cases a with
      | none => exact keyed_compact hrecur hc h
      | bool b =>
          cases h
          exact ⟨keyed_digit b, .refl v⟩
      | text s =>
          cases h
          exact ⟨keyed_quote _, .refl v⟩
      | bytes content =>
          cases h
          exact ⟨keyed_quote _, .refl v⟩
      | number n =>
          have hb : v.body k = .atom (.number n) := body_of_atom? ha
          obtain ⟨s, u', hs, h⟩ := run_bind h
          cases h
          obtain ⟨hcls, hpayload⟩ := hK k hk v hc n hb
          have hhas : v.Has k := has_of_isPlain (by rw [isPlain, ha]; rfl)
          have hord : v.IsOrdinary k (.number n) := ⟨hhas, hb, hcls⟩
          rw [Dispatch.text_of_number hord hs]
          exact ⟨keyed_number n hpayload, hc.lasts (.key hb hs)⟩

variable (hactive : ∀ x q, active.lookup x = some q → Flat q.text) (hp : Flat p.text)
include hactive hp

theorem neat_items {items : List Ref} {index : Nat} {ts : List Term} (hitems : ∀ c ∈ items, Meets w r v c)
    (h : itemTerms recur active p index items v = .ok ts u) : (∀ t ∈ ts, t.Neat) ∧ Lasts w r v u := by
  induction items generalizing v index ts with
  | nil =>
      cases h
      exact ⟨by simp, .refl _⟩
  | cons c rest ih =>
      obtain ⟨t, v', ht, h⟩ := run_bind h
      obtain ⟨found, u', hfound, h⟩ := run_bind h
      cases h
      obtain ⟨hneat, hlasts⟩ := hrecur hactive (Path.flat_item hp index) (hitems c List.mem_cons_self) ht
      obtain ⟨hrest, hlasts'⟩ := ih (fun c hc => hlasts c (hitems c (List.mem_cons_of_mem _ hc))) hfound
      exact ⟨List.forall_mem_cons.mpr ⟨hneat, hrest⟩, hlasts.trans hlasts'⟩

theorem neat_entries {pairs : List (List Char × Ref)} {es : List (List Char × Term)}
    (hpairs : ∀ y ∈ pairs, Keyed y.1 ∧ Meets w r v y.2) (h : entryTerms recur active p pairs v = .ok es u) :
    (∀ e ∈ es, Keyed e.1 ∧ e.2.Neat) ∧ Lasts w r v u := by
  induction pairs generalizing v es with
  | nil =>
      cases h
      exact ⟨by simp, .refl _⟩
  | cons y rest ih =>
      obtain ⟨t, v', ht, h⟩ := run_bind h
      obtain ⟨found, u', hfound, h⟩ := run_bind h
      cases h
      obtain ⟨hkey, hy⟩ := hpairs y List.mem_cons_self
      obtain ⟨hneat, hlasts⟩ := hrecur hactive (Path.flat_entry hp hkey.flat) hy ht
      obtain ⟨hrest, hlasts'⟩ := ih (fun y hy => (hpairs y (List.mem_cons_of_mem _ hy)).imp_right (hlasts _)) hfound
      exact ⟨List.forall_mem_cons.mpr ⟨⟨hkey, hneat⟩, hrest⟩, hlasts.trans hlasts'⟩

theorem neat_array {items : List Ref} (hitems : ∀ c ∈ items, Meets w r v c)
    (h : arrayTerm recur active p items v = .ok t u) : t.Neat ∧ Lasts w r v u := by
  obtain ⟨ts, u', hts, h⟩ := run_bind h
  cases h
  obtain ⟨hneat, hlasts⟩ := neat_items hrecur hactive hp hitems hts
  exact ⟨.array hneat, hlasts⟩

theorem neat_hash {pairs : List (List Char × Ref)} (hpairs : ∀ y ∈ pairs, Keyed y.1 ∧ Meets w r v y.2)
    (h : hashTerm recur active p pairs v = .ok t u) : t.Neat ∧ Lasts w r v u := by
  obtain ⟨es, u', hes, h⟩ := run_bind h
  cases h
  obtain ⟨hneat, hlasts⟩ := neat_entries hrecur hactive hp (fun y hy => hpairs y (mem_byText.mp hy)) hes
  exact ⟨.hash (fun e he => (hneat e he).1) fun e he => (hneat e he).2, hlasts⟩

theorem neat_members {items : List Ref} (hitems : ∀ c ∈ items, Meets w r v c)
    (h : membersTerm recur active p items v = .ok t u) : t.Neat ∧ Lasts w r v u := by
  obtain ⟨pairs, v', hpairs, h⟩ := run_bind h
  obtain ⟨hkeyed, hlasts⟩ := literals (fun c _ => keyed_compact hrecur) hitems hpairs
  have hmembers : ∀ c ∈ (byText pairs).map (·.2), Meets w r v' c := fun c hc => by
    obtain ⟨y, hy, rfl⟩ := List.mem_map.mp hc
    obtain ⟨x, hx, hvalue⟩ := (hkeyed y (mem_byText.mp hy)).2
    exact hvalue ▸ hlasts x (hitems x hx)
  obtain ⟨hneat, hlasts'⟩ := neat_array hrecur hactive hp hmembers h
  exact ⟨hneat, hlasts.trans hlasts'⟩

theorem neat_mapping {entries : List (Ref × Ref)} (hK : MeetsBuiltinKeys w r) (hc : Meets w r v c)
    (hb : v.body c = .mapping entries)
    (h : (do hashTerm recur active p (← entries.mapM fun e => do return (← keyLiteral recur e.1, e.2)) : Act Term) v =
      .ok t u) :
    t.Neat ∧ Lasts w r v u := by
  have hheld : ∀ e ∈ entries, Meets w r v e.1 ∧ Meets w r v e.2 := fun e he => by
    refine ⟨.part hc ?_, .part hc ?_⟩
    · rw [held, hb]
      exact List.mem_append_left _ (List.mem_map_of_mem he)
    · rw [held, hb]
      exact List.mem_append_right _ (List.mem_map_of_mem he)
  obtain ⟨pairs, v', hpairs, h⟩ := run_bind h
  have hliteral : ∀ e ∈ entries, ∀ {v text u}, Meets w r v e.1 → keyLiteral recur e.1 v = .ok text u →
      Keyed text ∧ Lasts w r v u := fun e he =>
    keyed_keyLiteral hrecur hK ⟨v, c, entries, e.2, hc, hb, he⟩
  obtain ⟨hkeyed, hlasts⟩ := literals hliteral (fun e he => (hheld e he).1) hpairs
  have hvalues : ∀ y ∈ pairs, Keyed y.1 ∧ Meets w r v' y.2 := fun y hy => by
    obtain ⟨hkey, e, he, hvalue⟩ := hkeyed y hy
    exact ⟨hkey, hvalue ▸ hlasts _ (hheld e he).2⟩
  obtain ⟨hneat, hlasts'⟩ := neat_hash hrecur hactive hp hvalues h
  exact ⟨hneat, hlasts.trans hlasts'⟩

theorem neat_fields (hc : Meets w r v c) (ho : v.isObject c = true)
    (h : (do hashTerm recur active p ((← fields c).map fun e => (quote e.1.toList, e.2)) : Act Term) v = .ok t u) :
    t.Neat ∧ Lasts w r v u := by
  obtain ⟨pairs, v', hpairs, h⟩ := run_bind h
  have hasks : Asks v c v' (pairs.map (·.2)) := .fields ho hpairs
  have hfields : ∀ y ∈ pairs.map fun e => (quote e.1.toList, e.2), Keyed y.1 ∧ Meets w r v' y.2 := fun y hy => by
    obtain ⟨e, he, rfl⟩ := List.mem_map.mp hy
    exact ⟨keyed_quote _, .found hc hasks (List.mem_map_of_mem he)⟩
  obtain ⟨hneat, hlasts⟩ := neat_hash hrecur hactive hp hfields h
  exact ⟨hneat, (hc.lasts hasks).trans hlasts⟩

theorem neat_contentTerm (hK : MeetsBuiltinKeys w r) (hc : Meets w r v c) (hleaf : isLeaf v c = false)
    (hbox : ∀ x tainted, v.body c ≠ .box x tainted) (h : contentTerm recur active p c v = .ok t u) :
    t.Neat ∧ Lasts w r v u := by
  cases shape v c with
  | leaf hleaf' => rw [hleaf] at hleaf'; cases hleaf'
  | box hb => exact absurd hb (hbox _ _)
  | mapping hb =>
      rw [contentTerm_mapping hb] at h
      exact neat_mapping hrecur hactive hp hK hc hb h
  | members hb =>
      rw [contentTerm_members hb] at h
      exact neat_members hrecur hactive hp (fun d hd => .part hc (by rw [held, hb]; exact hd)) h
  | items hi =>
      rw [contentTerm_items hi] at h
      exact neat_array hrecur hactive hp (fun d hd => .part hc (mem_held_items hi hd)) h
  | fields ho =>
      rw [contentTerm_fields ho] at h
      exact neat_fields hrecur hactive hp hc ho h

theorem neat_referenceTerm (hK : MeetsBuiltinKeys w r) (hc : Meets w r v c) (hleaf : isLeaf v c = false)
    (hbox : ∀ x tainted, v.body c ≠ .box x tainted) (h : referenceTerm recur active p c v = .ok t u) :
    t.Neat ∧ Lasts w r v u := by
  obtain ⟨t', v', ht', h⟩ := run_bind h
  obtain ⟨hneat, hlasts⟩ := neat_contentTerm hrecur hactive hp hK hc hleaf hbox ht'
  rw [run_get] at h
  by_cases hunblessed : unblessed.contains (v'.classOf c) = true
  · rw [if_pos hunblessed] at h
    cases h
    exact ⟨hneat, hlasts⟩
  · rw [if_neg hunblessed] at h
    obtain ⟨name, v'', hname, h⟩ := run_bind h
    cases h
    exact ⟨.blessed _ hneat, hlasts.trans ((hlasts c hc).lasts (.name hname))⟩

/-- A step whose children are written neatly writes neatly. -/
theorem neat_term (hK : MeetsBuiltinKeys w r) (hc : Meets w r v c) (h : term recur active p c v = .ok t u) :
    t.Neat ∧ Lasts w r v u := by
  cases hleaf : isLeaf v c with
  | true => exact neat_leaf hc hleaf h
  | false =>
      cases hl : active.lookup c with
      | some q =>
          rw [term_again hleaf hl] at h
          cases h
          exact ⟨.path (hactive c q hl), .refl v⟩
      | none =>
          have hactive' : ∀ x q, ((c, p) :: active).lookup x = some q → Flat q.text := fun x q hx => by
            rw [List.lookup_cons] at hx
            split at hx
            · cases hx
              exact hp
            · exact hactive x q hx
          by_cases hbox : ∃ x tainted, v.body c = .box x tainted
          · obtain ⟨x, tainted, hb⟩ := hbox
            rw [term_box hb hl] at h
            obtain ⟨t', v', ht', h⟩ := run_bind h
            cases h
            have hx : Meets w r v x := .part hc (by rw [held, hb]; exact List.mem_singleton_self x)
            obtain ⟨hneat, hlasts⟩ := hrecur hactive' (Path.flat_target hp) hx ht'
            exact ⟨.reference hneat, hlasts⟩
          · have hbox' : ∀ x tainted, v.body c ≠ .box x tainted := fun x tainted hb => hbox ⟨x, tainted, hb⟩
            rw [term_content hleaf hbox' hl] at h
            exact neat_referenceTerm hrecur hactive' hp hK hc hleaf hbox' h

end Children

/-- Whatever runs in between, what is met stays met, so that each child is met where it is written. -/
theorem neatly_termWithin (hK : MeetsBuiltinKeys w r) (depth : Nat) : Neatly w r (termWithin depth) := by
  induction depth with
  | zero => exact fun _ _ _ h => by cases h
  | succ depth ih => exact fun hactive hp hc h => neat_term ih hactive hp hK hc h

/-! ## Data -/

section Data

variable {S : List Ref} {d : Ref}

theorem part_of_held (h : d ∈ held w c) : w.Part c d := by
  unfold held at h
  split at h
  · rename_i x _ hb
    rw [List.mem_singleton] at h
    exact .inl (.content (h ▸ hb))
  · rename_i entries hb
    rcases List.mem_append.mp h with h | h
    · obtain ⟨e, he, rfl⟩ := List.mem_map.mp h
      exact .inr (.key (v := e.2) hb he)
    · obtain ⟨e, he, rfl⟩ := List.mem_map.mp h
      exact .inl (.value (k := e.1) hb he)
  · rename_i items hb
    exact .inr (.member hb h)
  · cases hi : w.items? c with
    | none =>
        rw [hi] at h
        cases h
    | some items =>
        rw [hi] at h
        exact .inl (.item hi h)

/-- What is asked about data leaves its world as it is, but for what is new in it, and finds its parts. -/
theorem leads_of_asks {ds : List Ref} (hw : Data w S) (hd : 2 ≤ w.nesting) (hv : w.Leads v) (hc : c ∈ S)
    (h : Asks v c u ds) : w.Leads u ∧ ∀ d ∈ ds, d ∈ S := by
  have hhas := hw.has c hc
  have hbody : v.body c = w.body c := hv.grows.body hhas
  cases h with
  | @value a t _ hb hrun =>
      have hord : ∀ n, a = .number n → w.IsOrdinary c a := by
        rintro n rfl
        exact isOrdinary_of_isData (hw.data c hc) hhas (hbody ▸ hb)
      exact ⟨hv.trans ((steady_atomTerm hd hord).of_run hv hrun).2, by simp⟩
  | key hb hrun =>
      have hord := isOrdinary_of_isData (hw.data c hc) hhas (hbody ▸ hb)
      exact ⟨hv.trans ((steady_textOf_number hd hord).of_run hv hrun).2, by simp⟩
  | fields ho hrun =>
      have ho' : w.isObject c = true := by
        rw [isObject, ← hbody]
        exact ho
      have hquiet := storesQuietly_of_isData (hw.data c hc) ho'
      obtain ⟨hpairs, hu⟩ := (steady_fields (Nat.le_of_succ_le hd) hquiet).of_run hv hrun
      cases hpairs
      refine ⟨hv.trans hu, fun d hd => ?_⟩
      obtain ⟨e, he, rfl⟩ := List.mem_map.mp hd
      rw [← hw.storage_eq hc ho'] at he
      exact hw.graph.parts c hc e.2 (.inl (.field (n := e.1) ho' he))
  | name hrun => exact ⟨hv.trans ((Registry.steady_qnameOf hw.sound hhas).of_run hv hrun).2, by simp⟩

theorem Data.leads_of_meets (hw : Data w S) (hd : 2 ≤ w.nesting) (hr : r ∈ S) (h : Meets w r v c) :
    w.Leads v ∧ c ∈ S := by
  induction h with
  | start => exact ⟨.refl w, hr⟩
  | @part v c d _ hmem ih =>
      obtain ⟨hv, hc⟩ := ih
      have hhas := hw.has c hc
      have hsame : held v c = held w c := by
        rw [held, held, hv.grows.body hhas, hv.grows.items? hhas]
      exact ⟨hv, hw.graph.parts c hc d (part_of_held (hsame ▸ hmem))⟩
  | found _ ha hmem ih =>
      obtain ⟨hu, hds⟩ := leads_of_asks hw hd ih.1 ih.2 ha
      exact ⟨hu, hds _ hmem⟩
  | later _ ha _ ih ih' => exact ⟨(leads_of_asks hw hd ih.1 ih.2 ha).1, ih'.2⟩

/-- The keys of data are of the host's own classes. -/
theorem Data.meetsBuiltinKeys (hw : Data w S) (hd : 2 ≤ w.nesting) (hr : r ∈ S)
    (hpayloads : ∀ k ∈ S, ∀ negative signaling payload,
      w.body k = .atom (.number (.decimal (.nan negative signaling payload))) → Consists Char.isDigit payload) :
    MeetsBuiltinKeys w r := by
  intro k _ v hk n hb
  obtain ⟨hv, hmem⟩ := hw.leads_of_meets hd hr hk
  have hhas := hw.has k hmem
  have hb' : w.body k = .atom (.number n) := (hv.grows.body hhas).symm.trans hb
  refine ⟨(hv.grows.classOf hhas).trans (isOrdinary_of_isData (hw.data k hmem) hhas hb').cls, ?_⟩
  rintro negative signaling payload rfl
  exact hpayloads k hmem negative signaling payload hb'

end Data

/-! ## Dumps -/

/-- Where the compact dump is written, every indent writes a dump, and leaves the same world behind. Its lines
join to the compact dump, and each is indented by what is open there. -/
theorem encode_indented {compact : String} (hK : MeetsBuiltinKeys w r) (h : encode r 0 w = .ok compact u) (n : Nat) :
    ∃ text, encode r n w = .ok text u ∧ joined text.toList = compact.toList ∧
      ∀ m ∈ margins text.toList, m.spaces = n * m.level := by
  rw [encode, run_get] at h
  obtain ⟨t, v, ht, h⟩ := run_bind h
  cases h
  obtain ⟨hneat, -⟩ := neatly_termWithin hK w.nesting (fun x q hx => by cases hx) Path.flat_root .start ht
  refine ⟨t.render n, ?_, ?_⟩
  · rw [encode, run_get, run_bind_ok ht]
    rfl
  · simp only [Term.render, String.toList_ofList]
    exact (hneat.lays (n := n) 0 0).joined

/-! ## A dump of several lines -/

/-- A list of a text, of mappings that lead to an empty set, and of itself. Texts hold line ends, spaces, quotes
and brackets. -/
def ledger : World :=
  { Session.initialWorld with
    cells := #[⟨.native .list, .sequence [.atom (.text "x\n  ]"), .cell 1, .cell 0], [], none⟩,
      ⟨.native .dict, .mapping [(.atom (.text "it's\n["), .cell 2)], [], none⟩,
      ⟨.native .dict, .mapping [(intRef 7, .cell 3)], [], none⟩, ⟨.native .set, .members [], [], none⟩] }

def ledgerRefs : List Ref :=
  [.cell 0, .cell 1, .cell 2, .cell 3, .atom (.text "x\n  ]"), .atom (.text "it's\n["), intRef 7]

theorem data_ledger : Data ledger ledgerRefs where
  sound := Registry.sound_empty
  has := by decide
  data := by decide
  parts := by decide
  names := by decide
  payloads := by
    intro r hr n hn negative signaling payload hpayload
    simp only [ledgerRefs, List.mem_cons, List.not_mem_nil, or_false] at hr
    rcases hr with rfl | rfl | rfl | rfl | rfl | rfl | rfl
    all_goals cases hn
    cases hpayload

theorem meetsBuiltinKeys_ledger : MeetsBuiltinKeys ledger (.cell 0) := by
  refine data_ledger.meetsBuiltinKeys (by decide) (by decide) fun k hk negative signaling payload hb => ?_
  simp only [ledgerRefs, List.mem_cons, List.not_mem_nil, or_false] at hk
  rcases hk with rfl | rfl | rfl | rfl | rfl | rfl | rfl
  all_goals cases hb

theorem encode_indented_ledger : ∃ u, encode (.cell 0) 0 ledger = .ok
      "['x\n  ]',\x7b'it\\'s\n[' => \x7b7 => []\x7d\x7d,$VAR1]" u ∧
    ∃ text, encode (.cell 0) 2 ledger = .ok text u ∧
      joined text.toList = "['x\n  ]',\x7b'it\\'s\n[' => \x7b7 => []\x7d\x7d,$VAR1]".toList ∧
      ∀ m ∈ margins text.toList, m.spaces = 2 * m.level := by
  have hcompact : answered (encode (.cell 0) 0) ledger = some
      "['x\n  ]',\x7b'it\\'s\n[' => \x7b7 => []\x7d\x7d,$VAR1]" := by decide +kernel
  obtain ⟨u, hu⟩ := answered_iff.mp hcompact
  exact ⟨u, hu, encode_indented meetsBuiltinKeys_ledger hu 2⟩

end Introspect.Perl
