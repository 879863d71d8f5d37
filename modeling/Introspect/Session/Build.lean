import Introspect.Session.Basic
import Introspect.Dispatch.Perform
import Introspect.World.Instance
/-! Literals made in the world of a session. -/
namespace Introspect

namespace Act

/-- Members are added one after the other, each at most once. -/
def members (items : List Ref) : Act (List Ref) := do
  items.forM checkKey
  return items.foldl (World.addMember (← get)) []

/-- Entries are put one after the other. -/
def entries (pairs : List (Ref × Ref)) : Act (List (Ref × Ref)) := do
  pairs.forM fun (k, _) => checkKey k
  let w ← get
  return pairs.foldl (fun found (k, v) => w.putKey k v found) []

def collection (kind : Native) (items : List Ref) : Act Ref := do
  match kind with
  | .list => list items
  | .tuple => tuple items
  | .set | .frozenset | .dictKeys => instantiate (.native kind) (.members (← members items))
  | kind => instantiate (.native kind) (.sequence items)

def mapping (kind : Native) (pairs : List (Ref × Ref)) : Act Ref := do
  instantiate (.native kind) (.mapping (← entries pairs))

def box (value : Ref) (tainted : Bool) : Act Ref := do
  let tainted := tainted || (← get).isInstance value .taintedStr
  instantiate (.native .scalar) (.box value tainted)

def classNamed (id : String) : Act ClassId := do
  match Dispatch.classNamed? (← get) id with
  | some c => return c
  | none => throw (.host .keyError "")

def routineNamed (name : String) : Act Ref :=
  match name with
  | "len" => return .routine .length
  | "abs" => return .routine .magnitude
  | "f0" => return .routine .zero
  | "f1" => return .routine .one
  | _ => throw (.host .keyError "")

/-- An instance of a class with the content of a given object, or with none. -/
def instanceOf (c : ClassId) (content : Option Ref) : Act Ref := do
  let w ← get
  instantiate c (content.elim (World.emptyBody (w.contentClass? c)) w.body)

def setAttributes (r : Ref) (attributes : List (String × Ref)) : Act Unit :=
  attributes.forM fun (name, value) => setAttribute r name value

end Act

namespace Session

def ofOption (id : Option Nat) : Ref := id.elim (.atom .none) .descriptor

mutual

def Literal.build : Literal → Step Ref
  | .atom a => Act.atom a
  | .tainted s => Act.instantiate (.native .taintedStr) (.atom (.text s))
  | .collection kind items => do Act.collection kind (← buildItems items)
  | .mapping kind pairs => do Act.mapping kind (← buildPairs pairs)
  | .range start stop step => Act.fresh .range (.range start stop step)
  | .byteArray content => Act.fresh .bytearray (.byteArray content)
  | .box value tainted => do Act.box (← value.build) tainted
  | .routine name => Act.routineNamed name
  | .partialCall name => do
    let f ← Act.routineNamed name
    Act.instantiate (.native .partialCall) (.partialCall f)
  | .bound e name => do Dispatch.ask (.attribute (← e.build) name)
  | .stream => Act.instantiate (.native .stringIO) .stream
  | .bareObject => Act.fresh .object .nothing
  | .ellipsis => return .ellipsis
  | .cls id => do return .cls (← Act.classNamed id)
  | .type t => do return ofOption (← t.resolve)
  | .error e => e.build
  | .known name => do known (← get).values name
  | .object cls none attributes => do
    let r ← Act.instanceOf (← Act.classNamed cls) none
    Act.setAttributes r (← buildAttributes attributes)
    return r
  | .object cls (some content) attributes => do
    let c ← Act.classNamed cls
    let r ← Act.instanceOf c (some (← content.build))
    Act.setAttributes r (← buildAttributes attributes)
    return r

def buildItems : List Literal → Step (List Ref)
  | [] => return []
  | e :: rest => do return (← e.build) :: (← buildItems rest)

def buildPairs : List (Literal × Literal) → Step (List (Ref × Ref))
  | [] => return []
  | (k, v) :: rest => do return (← k.build, ← v.build) :: (← buildPairs rest)

def buildAttributes : List (String × Literal) → Step (List (String × Ref))
  | [] => return []
  | (name, e) :: rest => do return (name, ← e.build) :: (← buildAttributes rest)

/-- The descriptor that a term stands for; none for an unchecked name that is unknown. -/
def TypeTerm.resolve : TypeTerm → Step (Option Nat)
  | .named qname true => do return some (← Registry.find Dispatch.ask qname)
  | .named qname false => Registry.find? Dispatch.ask qname
  | .ofClass id => do return some (← Registry.ofClass (← Act.classNamed id))
  | .of e => do return some (← Registry.of (← e.build))
  | .held name => do known (← get).held name

def ErrorTerm.build : ErrorTerm → Step Ref
  | .own kind message none => do
    Act.instantiate (.native (.error kind)) (.error (← message.build) (.atom .none))
  | .own kind message (some cause) => do
    let message ← message.build
    Act.instantiate (.native (.error kind)) (.error message (← cause.build))
  | .host kind message => do
    Act.instantiate (.native (.host kind)) (.error (← Act.text message) (.atom .none))

end

end Session

end Introspect
