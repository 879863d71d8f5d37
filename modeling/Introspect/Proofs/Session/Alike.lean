import Introspect.Proofs.Perl.Copies
import Introspect.Proofs.Session.Reachable
/-!
One content in two sessions. Whatever was asked before in either, the same objects under the same declarations of
classes get the same answers exactly if their types have the same names there. A type keeps the name that its class
had when it was first asked for.
-/
namespace Introspect

open World Dispatch

variable {α : Type} {w v b : World} {S : List Ref} {r : Ref} {ρ : Renaming}

namespace World

theorem Makes.unique {m : Act Ref} {x y : Except Fault Atom} (hx : b.Makes m x) (hy : b.Makes m y) : x = y := by
  cases x with
  | error fault =>
      obtain ⟨u, -, hu⟩ := hx b (.refl b)
      cases y with
      | error fault' =>
          obtain ⟨u', -, hu'⟩ := hy b (.refl b)
          rw [hu] at hu'
          cases hu'
          rfl
      | ok a =>
          obtain ⟨u', r, -, hu', -⟩ := hy b (.refl b)
          rw [hu] at hu'
          cases hu'
  | ok a =>
      obtain ⟨u, r, -, hu, ha⟩ := hx b (.refl b)
      cases y with
      | error fault =>
          obtain ⟨u', -, hu'⟩ := hy b (.refl b)
          rw [hu] at hu'
          cases hu'
      | ok a' =>
          obtain ⟨u', r', -, hu', ha'⟩ := hy b (.refl b)
          rw [hu] at hu'
          cases hu'
          rw [Option.some.inj (ha.atom?_eq.symm.trans ha'.atom?_eq)]

/-- Under every limit of nesting that is large enough, two worlds answer alike or fail alike. -/
def AnswerAlike (w v : World) (m m' : Act α) : Prop :=
  ∀ᶠ n in Filter.atTop, ∃ x, (w.limited n).Steady m x ∧ (v.limited n).Steady m' x

/-- Under every limit of nesting that is large enough, two worlds answer with one plain value or fail alike. -/
def MakeAlike (w v : World) (m m' : Act Ref) : Prop :=
  ∀ᶠ n in Filter.atTop, ∃ x, (w.limited n).Makes m x ∧ (v.limited n).Makes m' x

end World

namespace Handle

theorem makes_className (hs : b.registry.Sound) (hr : b.Has r) :
    b.Makes (className ⟨.asData, r⟩) (.ok (.text (Registry.typeName b r))) := by
  refine Makes.get fun u hu => ?_
  rw [← Registry.typeName_grows hs hr hu.grows]
  refine Makes.of_steady (g := fun name => .ok (.text name))
    (Registry.steady_qnameOf (hu.grows.sound hs) (hu.grows.has hr)) fun name _ => makes_text u name

theorem steady_digestedText {x : Except Fault String} (hs : b.registry.Sound) (hr : b.Has r)
    (h : b.Steady (Perl.encode r 0) x) :
    b.Steady (digestedText ⟨.asData, r⟩) ((Registry.typeName b r ++ "\n" ++ ·) <$> x) := by
  rw [map_eq_pure_bind]
  refine (Registry.steady_qnameOf hs hr).bind
    (g := fun qname => x >>= fun text => .ok (qname ++ "\n" ++ text)) fun qname _ => ?_
  exact h.bind fun text _ => .pure b (qname ++ "\n" ++ text)

/-- The digest of a text in a format, the format looked at first. -/
def digestOf (algorithm format text : String) : Except Fault Atom := do
  let format ← Digest.formatOf format
  let algorithm ← Digest.algorithmOf algorithm
  return Digest.checksum (Text.Utf8.encode text) algorithm format

theorem makes_checksum {x : Except Fault String} {h : Handle} (hd : 2 ≤ b.nesting) (hx : b.Steady h.digestedText x)
    (algorithm format : String) :
    b.Makes (h.checksum (textRef algorithm) (textRef format)) (x >>= digestOf algorithm format) := by
  refine .of_steady hx fun text _ => ?_
  refine .of_steady (g := fun _ => digestOf algorithm format text)
    (steady_textOf_text hd (.atom b (.text format))) fun f hf => ?_
  cases hf
  refine .of_steady (steady_liftExcept b _) fun f _ => ?_
  refine .of_steady (g := fun _ => do return Digest.checksum (Text.Utf8.encode text) (← Digest.algorithmOf algorithm) f)
    (steady_textOf_text hd (.atom b (.text algorithm))) fun a ha => ?_
  cases ha
  exact .of_steady (steady_liftExcept b _) fun a _ => makes_atom b _

end Handle

/-! ## What is answered about a copy -/

namespace World

/-- Two worlds give the same answers about a reference each: the name of its type, its dump at every indent, and its
checksum by every algorithm in every format. -/
structure AnswersAlike (w v : World) (r r' : Ref) : Prop where
  className : w.MakeAlike v (Handle.className ⟨.asData, r⟩) (Handle.className ⟨.asData, r'⟩)
  dump (indent : Int) : w.AnswerAlike v (Perl.encode r indent) (Perl.encode r' indent)
  checksum (algorithm format : String) : w.MakeAlike v
    (Handle.checksum ⟨.asData, r⟩ (textRef algorithm) (textRef format))
    (Handle.checksum ⟨.asData, r'⟩ (textRef algorithm) (textRef format))

theorem typeName_limited (hs : w.registry.Sound) (hr : w.Has r) (n : Nat) :
    Registry.typeName (w.limited n) r = Registry.typeName w r :=
  Registry.typeName_grows hs hr (w.grows_limited n)

theorem makes_className_limited (hs : w.registry.Sound) (hr : w.Has r) (n : Nat) :
    (w.limited n).Makes (Handle.className ⟨.asData, r⟩) (.ok (.text (Registry.typeName w r))) := by
  have hgrows := w.grows_limited n
  rw [← typeName_limited hs hr n]
  exact Handle.makes_className (hgrows.sound hs) (hgrows.has hr)

theorem typeName_eq_of_makeAlike {r' : Ref} (hs : w.registry.Sound) (hr : w.Has r) (hs' : v.registry.Sound) (hr' : v.Has r')
    (h : w.MakeAlike v (Handle.className ⟨.asData, r⟩) (Handle.className ⟨.asData, r'⟩)) :
    Registry.typeName v r' = Registry.typeName w r := by
  obtain ⟨n, x, hx, hx'⟩ := h.exists
  have hname := (makes_className_limited hs hr n).unique hx
  have hname' := (makes_className_limited hs' hr' n).unique hx'
  rw [← hname] at hname'
  exact Atom.text.inj (Except.ok.inj hname')

theorem answersAlike_of_typeName (hG : Perl.Graph w S) (hG' : Perl.Graph v (S.map (Ref.rename ρ))) (h : w.Copies ρ v S)
    (hhooks : Perl.HooksAgree ρ w v S)
    (hnames : ∀ c ∈ S, Registry.typeName v (c.rename ρ) = Registry.typeName w c) (hr : r ∈ S) :
    w.AnswersAlike v r (r.rename ρ) := by
  have hr' : r.rename ρ ∈ S.map (Ref.rename ρ) := List.mem_map_of_mem hr
  have hwritten (n : Nat) := Perl.write_rename hG h hhooks hnames n [] .root hr
  have hdump (indent : Int) : ∀ᶠ n in Filter.atTop,
      (w.limited n).Steady (Perl.encode r indent) ((·.render indent) <$> Perl.write w n [] .root r) ∧
        (v.limited n).Steady (Perl.encode (r.rename ρ) indent) ((·.render indent) <$> Perl.write w n [] .root r) := by
    filter_upwards [hG.eventually_ready, hG'.eventually_ready] with n hready hready'
    refine ⟨Perl.steady_encode hG hready hr indent, ?_⟩
    have hcopy := Perl.steady_encode hG' hready' hr' indent
    change (v.limited n).Steady _ ((·.render indent) <$> Perl.write v n (Perl.Active.rename ρ []) .root _) at hcopy
    rwa [hwritten] at hcopy
  refine ⟨?_, fun indent => (hdump indent).mono fun n hn => ⟨_, hn⟩, fun algorithm format => ?_⟩
  · refine .of_forall fun n => ⟨_, makes_className_limited hG.sound (hG.has r hr) n, ?_⟩
    rw [← hnames r hr]
    exact makes_className_limited hG'.sound (hG'.has _ hr') n
  · filter_upwards [hdump 0, Filter.eventually_ge_atTop 2] with n hn hd
    have htext := Handle.steady_digestedText ((w.grows_limited n).sound hG.sound)
      ((w.grows_limited n).has (hG.has r hr)) hn.1
    have htext' := Handle.steady_digestedText ((v.grows_limited n).sound hG'.sound)
      ((v.grows_limited n).has (hG'.has _ hr')) hn.2
    rw [typeName_limited hG.sound (hG.has r hr)] at htext
    rw [typeName_limited hG'.sound (hG'.has _ hr'), hnames r hr] at htext'
    exact ⟨_, Handle.makes_checksum hd htext algorithm format, Handle.makes_checksum hd htext' algorithm format⟩

/-- The same content gets the same answers in two worlds exactly if the types of its objects have the same names. -/
theorem answersAlike_iff (hG : Perl.Graph w S) (hG' : Perl.Graph v (S.map (Ref.rename ρ))) (h : w.Copies ρ v S)
    (hhooks : Perl.HooksAgree ρ w v S) :
    (∀ r ∈ S, w.AnswersAlike v r (r.rename ρ)) ↔
      ∀ r ∈ S, Registry.typeName v (r.rename ρ) = Registry.typeName w r := by
  constructor
  · intro halike r hr
    exact typeName_eq_of_makeAlike hG.sound (hG.has r hr) hG'.sound (hG'.has _ (List.mem_map_of_mem hr))
      (halike r hr).className
  · exact fun hnames r hr => answersAlike_of_typeName hG hG' h hhooks hnames hr

end World

namespace Session

/-- An object with a list, of a class whose type was not asked for. -/
def unasked : Session :=
  following
    [.cls (.declare ⟨"C", "C", "C", some "app", [], none, [], false⟩),
     .value (.assign "x" (.object "C" none [("parts", .collection .list [.atom (Atom.int 7)])]))]
    initial

/-- The same after another class was declared, an object of it made, and the type of the second class asked for. -/
def askedFirst : Session :=
  following
    [.cls (.declare ⟨"A", "A", "A", some "app", [], none, [], false⟩),
     .value (.assign "y" (.object "A" none [])),
     .cls (.declare ⟨"C", "C", "C", some "app", [], none, [], false⟩),
     .type (.ofClass "C") .itself,
     .value (.assign "x" (.object "C" none [("parts", .collection .list [.atom (Atom.int 7)])]))]
    initial

/-- Objects and classes stand one place further on. -/
def shifted : Renaming := ⟨⟨_, Nat.succ_injective⟩, ⟨_, Nat.succ_injective⟩, .refl Nat, .refl Nat⟩

def objectRefs : List Ref := [.cell 0, .cell 1, intRef 7]

theorem answersAlike_askedFirst : unasked.Reachable ∧ askedFirst.Reachable ∧
    unasked.world.Copies shifted askedFirst.world objectRefs ∧
    unasked.world.registry.byName = [] ∧ askedFirst.world.registry.byName = [("app.C", 0)] ∧
    ∀ r ∈ objectRefs, unasked.world.AnswersAlike askedFirst.world r (r.rename shifted) := by
  have hreachable : unasked.Reachable := .following .refl _
  have hreachable' : askedFirst.Reachable := .following .refl _
  have hcopies : unasked.world.Copies shifted askedFirst.world objectRefs := by decide +kernel
  have hG : Perl.Graph unasked.world objectRefs := Perl.graph_of_isData hreachable.regular.sound
    (by decide +kernel) (by decide +kernel) (by decide +kernel)
  have hG' : Perl.Graph askedFirst.world (objectRefs.map (Ref.rename shifted)) :=
    Perl.graph_of_isData hreachable'.regular.sound (by decide +kernel) (by decide +kernel) (by decide +kernel)
  refine ⟨hreachable, hreachable', hcopies, by decide +kernel, by decide +kernel, ?_⟩
  refine (answersAlike_iff hG hG' hcopies (Perl.hooksAgree_of_isWrittenNatively (by decide +kernel))).mpr ?_
  decide +kernel

/-- The class of an object is renamed. -/
def renamed : Session :=
  following
    [.cls (.declare ⟨"C", "C", "C", some "app", [], none, [], false⟩),
     .value (.assign "x" (.object "C" none [])),
     .cls (.assign "C" "__qualname__" (.value (.text "D")))]
    initial

/-- The class of an object is renamed after its type was asked for. -/
def renamedLate : Session :=
  following
    [.cls (.declare ⟨"C", "C", "C", some "app", [], none, [], false⟩),
     .value (.assign "x" (.object "C" none [])),
     .type (.of (.known "x")) .itself,
     .cls (.assign "C" "__qualname__" (.value (.text "D")))]
    initial

theorem not_answersAlike_renamedLate : renamed.Reachable ∧ renamedLate.Reachable ∧
    renamed.world.Copies .refl renamedLate.world [.cell 0] ∧ renamed.world.classes = renamedLate.world.classes ∧
    Registry.typeName renamed.world (.cell 0) = "app.D" ∧ Registry.typeName renamedLate.world (.cell 0) = "app.C" ∧
    ¬ renamed.world.AnswersAlike renamedLate.world (.cell 0) (.cell 0) := by
  have hreachable : renamed.Reachable := .following .refl _
  have hreachable' : renamedLate.Reachable := .following .refl _
  have hname : Registry.typeName renamed.world (.cell 0) = "app.D" := by decide +kernel
  have hname' : Registry.typeName renamedLate.world (.cell 0) = "app.C" := by decide +kernel
  refine ⟨hreachable, hreachable', by decide +kernel, by decide +kernel, hname, hname', fun halike => ?_⟩
  have hsame := typeName_eq_of_makeAlike hreachable.regular.sound (by decide +kernel) hreachable'.regular.sound
    (by decide +kernel) halike.className
  rw [hname, hname'] at hsame
  exact absurd hsame (by decide)

end Session

end Introspect
