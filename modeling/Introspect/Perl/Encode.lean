import Introspect.Perl.Term
import Introspect.Reflect.Shape
/-!
Objects as Perl terms. Keys and set members are ordered by their compact texts, so that equal content
has one text. An object met again inside itself is written as the path that leads to it.
-/
namespace Introspect.Perl

open Dispatch

abbrev Active := List (Ref × Path)

/-- Integers of at most this many digits are written bare. -/
def bareDigits : Nat := 9

def unblessed : List ClassId :=
  [.native .dict, .native .list, .native .tuple, .native .set, .native .frozenset]

def integerTerm (text : String) : Term :=
  let cs := text.toList
  if (cs.dropWhile (· = '-')).length ≤ bareDigits then .bare cs else .quoted cs

/-- The term of a plain value. Integers convert; other numbers have a text of their own. -/
def atomTerm (r : Ref) : Atom → Act Term
  | .none => return .undefined
  | .bool true => return .bare ['1']
  | .bool false => return .quoted []
  | .number (.int _) => do return integerTerm (← ask.textOf (← ask (.integer r)))
  | .number _ => do return .quoted (← ask.textOf r).toList
  | .text s => return .quoted s.toList
  | .bytes b => return .quoted (Text.latin1 b)

def byText (pairs : List (List Char × Ref)) : List (List Char × Ref) :=
  pairs.mergeSort fun a b => ¬ b.1 < a.1

section Children

-- Writes a child below the given active objects.
variable (recur : Active → Path → Ref → Act Term)

def compact (r : Ref) : Act (List Char) := do return (← recur [] .root r).chars 0 0

/-- The literal of a key: texts quoted, numbers bare, other keys by their compact text. -/
def keyLiteral (k : Ref) : Act (List Char) := do
  match (← get).atom? k with
  | some (.text s) => return quote s.toList
  | some (.bytes b) => return quote (Text.latin1 b)
  | some (.bool b) => return [if b then '1' else '0']
  | some (.number _) => return (← ask.textOf k).toList
  | _ => compact recur k

def itemTerms (active : Active) (p : Path) : Nat → List Ref → Act (List Term)
  | _, [] => return []
  | index, r :: rest => do
    let t ← recur active (.item p index) r
    return t :: (← itemTerms active p (index + 1) rest)

def entryTerms (active : Active) (p : Path) : List (List Char × Ref) →
    Act (List (List Char × Term))
  | [] => return []
  | (key, r) :: rest => do
    let t ← recur active (.entry p key) r
    return (key, t) :: (← entryTerms active p rest)

def arrayTerm (active : Active) (p : Path) (items : List Ref) : Act Term := do
  return .array (← itemTerms recur active p 0 items)

def hashTerm (active : Active) (p : Path) (pairs : List (List Char × Ref)) : Act Term := do
  return .hash (← entryTerms recur active p (byText pairs))

def membersTerm (active : Active) (p : Path) (items : List Ref) : Act Term := do
  let pairs ← items.mapM fun r => do return (← compact recur r, r)
  arrayTerm recur active p ((byText pairs).map (·.2))

def contentTerm (active : Active) (p : Path) (r : Ref) : Act Term := do
  let w ← get
  match w.body r with
  | .mapping entries =>
    hashTerm recur active p (← entries.mapM fun (k, v) => do return (← keyLiteral recur k, v))
  | .members items => membersTerm recur active p items
  | _ =>
    match w.items? r with
    | some items => arrayTerm recur active p items
    | none => hashTerm recur active p ((← fields r).map fun (name, v) => (quote name.toList, v))

/-- A container or an object, with its class unless it is an ordinary container. -/
def referenceTerm (active : Active) (p : Path) (r : Ref) : Act Term := do
  let t ← contentTerm recur active p r
  if unblessed.contains ((← get).classOf r) then return t
  return .blessed t (← Registry.qnameOf r).toList

def term (active : Active) (p : Path) (r : Ref) : Act Term := do
  let w ← get
  match w.body r with
  | .atom a => atomTerm r a
  | .cls c => return .quoted (w.info c).fullName.toList
  | .routine _ | .bound .. | .partialCall _ | .methodWrapper => return .code
  | body =>
    match active.lookup r, body with
    | some q, _ => return .path q
    | none, .box value _ => return .reference (← recur ((r, p) :: active) (.target p) value)
    | none, _ => referenceTerm recur ((r, p) :: active) p r

end Children

def termWithin : Nat → Active → Path → Ref → Act Term
  | 0, _, _, _ => throw .nesting
  | depth + 1, active, p, r => term (termWithin depth) active p r

def encode (r : Ref) (indent : Int) : Act String := do
  return (← termWithin (← get).nesting [] .root r).render indent

end Introspect.Perl
