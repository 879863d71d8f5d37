import Introspect.World.Basic
/-! Keys of mappings and members of sets: which objects can be one, and which are the same one. -/
namespace Introspect

namespace World

/-- The hash of a class is taken away by an entry that cannot be called. -/
def classHashes (w : World) (c : ClassId) : Bool :=
  match w.entryOf? c "__hash__" with
  | some (_, .native _ .data) => false
  | some (_, .value r) => w.isRoutine r
  | _ => true

/-- A tuple can be a key if its items can, down to the given depth. -/
def isHashable (w : World) : Nat → Ref → Bool
  | 0, _ => false
  | depth + 1, r =>
    w.classHashes (w.classOf r) &&
      match w.body r with
      | .sequence items => items.all (isHashable w depth)
      | .atom (.number n) => !Atom.isSignaling n
      | _ => true

/-- How many numbers a range has, and its first and its step as far as they show. -/
def rangeShape (start stop step : Int) : Nat × Option Int × Option Int :=
  let size := if step < 0 then (start - stop - step - 1) / (-step) else (stop - start + step - 1) / step
  let count := size.toNat
  (count, if count = 0 then none else some start, if count ≤ 1 then none else some step)

/-- Keys are one key if they are the same object, equal plain values, tuples of one key each, sets
of the same keys, ranges of the same numbers, or one routine bound to one receiver. -/
def sameKey (w : World) : Nat → Ref → Ref → Bool
  | 0, a, b => a = b
  | depth + 1, a, b =>
    a = b ||
      match w.body a, w.body b with
      | .atom x, .atom y => (x.equalValue y).toOption = some true
      | .sequence xs, .sequence ys =>
        w.isInstance a .tuple && w.isInstance b .tuple && xs.length = ys.length &&
          (xs.zip ys).all fun (x, y) => sameKey w depth x y
      | .members xs, .members ys =>
        xs.length = ys.length && xs.all fun x => ys.any (sameKey w depth x)
      | .range s t p, .range s' t' p' => rangeShape s t p = rangeShape s' t' p'
      | .bound x f, .bound y g => x = y && f = g
      | _, _ => false

def findKey? (w : World) (key : Ref) (entries : List (Ref × Ref)) : Option (Ref × Ref) :=
  entries.find? fun (k, _) => w.sameKey w.nesting k key

/-- Assigns to a key, which keeps its place and its first form. -/
def putKey (w : World) (key value : Ref) : List (Ref × Ref) → List (Ref × Ref)
  | [] => [(key, value)]
  | (k, v) :: rest =>
    if w.sameKey w.nesting k key then (k, value) :: rest else (k, v) :: putKey w key value rest

def eraseKey (w : World) (key : Ref) (entries : List (Ref × Ref)) : List (Ref × Ref) :=
  entries.filter fun (k, _) => !w.sameKey w.nesting k key

def addMember (w : World) (items : List Ref) (x : Ref) : List Ref :=
  if items.any (w.sameKey w.nesting · x) then items else items ++ [x]

end World

namespace Act

def checkKey (r : Ref) : Act Unit := do
  let w ← get
  if !w.isHashable w.nesting r then throw .typeError

end Act

end Introspect
