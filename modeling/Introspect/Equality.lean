import Introspect.Conversion
/-!
Deep equality of objects. A pair that is being compared further up counts as equal, so that cycles
end.
-/
namespace Introspect.Equality

abbrev Seen := List (Ref × Ref)

/-- A comparison that adds to the pairs seen. -/
abbrev Visit := StateT Seen Act

/-- Boxes and containers compare by structure; other references by their hooks if they have any. -/
def isValueObject (w : World) (r : Ref) : Bool :=
  match w.body r with
  | .atom _ | .box .. | .mapping _ | .sequence _ | .range .. | .byteArray _ | .members _ => false
  | _ => true

def overloadsEquality (r : Ref) : Act Bool := do
  if isValueObject (← get) r then return (← Conversion.overloads r).equality else return false

def eitherOverloads (a b : Ref) : Act Bool := do
  if ← overloadsEquality a then return true else overloadsEquality b

def isConverted (r : Ref) : Act Bool := do
  if isValueObject (← get) r then Conversion.isOverloaded r else return false

/-- The values that two objects stand for if both are plain or convert. -/
def converted (isPlain : Bool) (r : Ref) : Act Ref :=
  if isPlain then return r else Conversion.value r

section Children

variable (recur : Ref → Ref → Visit Bool)

def sequences : List Ref → List Ref → Visit Bool
  | x :: xs, y :: ys => do if ← recur x y then sequences xs ys else return false
  | _, _ => return true

/-- Each key of the first mapping is one of the second with an equal value. -/
def mappings (others : List (Ref × Ref)) : List (Ref × Ref) → Visit Bool
  | [] => return true
  | (k, v) :: rest => do
    match (← getThe World).findKey? k others with
    | none => return false
    | some (_, v') => if ← recur v v' then mappings others rest else return false

def fieldMaps (others : List (String × Ref)) : List (String × Ref) → Visit Bool
  | [] => return true
  | (name, v) :: rest => do
    match others.lookup name with
    | none => return false
    | some v' => if ← recur v v' then fieldMaps others rest else return false

/-- The members without the first one that equals `x`; none if no member does. -/
def without? (x : Ref) : List Ref → Visit (Option (List Ref))
  | [] => return none
  | y :: rest => do
    if ← recur x y then return some rest
    else return (← without? x rest).map (y :: ·)

/-- Each member of the first set takes an equal one out of the second. -/
def sets : List Ref → List Ref → Visit Bool
  | [], _ => return true
  | x :: rest, remaining => do
    match ← without? recur x remaining with
    | none => return false
    | some remaining => sets rest remaining

def objects (a b : Ref) : Visit Bool := do
  let w ← getThe World
  if w.classOf a ≠ w.classOf b then return false
  let xs ← fields a
  let ys ← fields b
  if xs.length ≠ ys.length then return false
  fieldMaps recur ys xs

def contents (kind : RefType) (a b : Ref) : Visit Bool := do
  let w ← getThe World
  match kind, w.body a, w.body b with
  | .scalar, .box x _, .box y _ => recur x y
  | .hash, .mapping xs, .mapping ys =>
    if xs.length ≠ ys.length then return false else mappings recur ys xs
  | .hash, _, _ => objects recur a b
  | .array, _, _ =>
    match w.items? a, w.items? b with
    | some xs, some ys =>
      if xs.length ≠ ys.length then return false else sequences recur xs ys
    | _, _ => objects recur a b
  | .set, .members xs, .members ys =>
    if xs.length ≠ ys.length then return false else sets recur xs ys
  | _, _, _ => return false

def references (a b : Ref) : Visit Bool := do
  let w ← getThe World
  match w.refType? a, w.refType? b with
  | some kind, some kind' =>
    if kind ≠ kind' then return false
    if (← get).contains (a, b) then return true
    modify ((a, b) :: ·)
    contents recur kind a b
  | _, _ => return false

/-- The same object; two plain values; an equality that a class overloads; converted values; or
structure. -/
def compare (a b : Ref) : Visit Bool := do
  if a = b then return true
  let w ← getThe World
  let aPlain := w.isPlain a
  let bPlain := w.isPlain b
  if aPlain && bPlain then return ← Conversion.plainEqual a b
  if ← eitherOverloads a b then return ← Dispatch.ask.isTrue (← Dispatch.ask (.equal a b))
  let aConverts ← isConverted a
  let bConverts ← isConverted b
  if aConverts || bConverts then
    if (aPlain || aConverts) && (bPlain || bConverts) then
      return ← Conversion.plainEqual (← converted aPlain a) (← converted bPlain b)
    return false
  if aPlain || bPlain then return false
  references recur a b

end Children

def within : Nat → Ref → Ref → Visit Bool
  | 0, _, _ => fun _ => throw .nesting
  | depth + 1, a, b => compare (within depth) a b

def isEqual (a b : Ref) : Act Bool := do
  return (← (within (← get).nesting a b).run []).1

end Introspect.Equality
