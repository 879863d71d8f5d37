import Introspect.Dispatch.Attribute
import Introspect.World.Key
/-! Equality by dispatch: a class compares its instances, and what no class decides is identity. -/
namespace Introspect.Dispatch

def allEqual (ask : Ask) : List (Ref × Ref) → Act Bool
  | [] => return true
  | (x, y) :: rest => do
    if ← ask.areEqual x y then allEqual ask rest else return false

/-- Every entry of the first mapping has an equal value under the same key in the second. -/
def entriesEqual (ask : Ask) (others : List (Ref × Ref)) : List (Ref × Ref) → Act Bool
  | [] => return true
  | (k, v) :: rest => do
    match (← get).findKey? k others with
    | none => return false
    | some (_, v') =>
      if ← ask.areEqual v v' then entriesEqual ask others rest else return false

def decided (b : Bool) : Act Ref := return .atom (.bool b)

/-- The sequence kinds that compare with each other. -/
def sequenceKind (w : World) (r : Ref) : Option Native :=
  [Native.list, .tuple, .deque].find? (w.isInstance r)

/-- Kinds of plain values that compare with each other. -/
def atomKind : Atom → Nat
  | .none => 0
  | .bool _ | .number _ => 1
  | .text _ => 2
  | .bytes _ => 3

def atomEqual (a b : Atom) : Act Ref :=
  if atomKind a = atomKind b then do decided (← Act.liftExcept (a.equalValue b))
  else return .notImplemented

/-- The equality that native classes give to two objects. -/
def bodyEqual (ask : Ask) (a b : Ref) : Act Ref := do
  let w ← get
  match w.body a, w.body b with
  | .atom x, .atom y => atomEqual x y
  | .sequence xs, .sequence ys =>
    if sequenceKind w a = sequenceKind w b then
      if xs.length = ys.length then decided (← allEqual ask (xs.zip ys)) else decided false
    else return .notImplemented
  | .mapping xs, .mapping ys =>
    if xs.length ≠ ys.length then decided false
    else if w.isInstance a .orderedDict && w.isInstance b .orderedDict &&
        !(xs.zip ys).all (fun (x, y) => w.sameKey w.nesting x.1 y.1) then decided false
    else decided (← entriesEqual ask ys xs)
  | .members xs, .members ys =>
    decided (xs.length = ys.length && xs.all fun x => ys.any (w.sameKey w.nesting x))
  | .range s t p, .range s' t' p' => decided (World.rangeShape s t p = World.rangeShape s' t' p')
  | .byteArray x, .byteArray y => decided (x = y)
  | .byteArray x, .atom (.bytes y) | .atom (.bytes x), .byteArray y => decided (x = y)
  | .bound x f, .bound y g => decided (x = y && f = g)
  | _, _ => if a = b then decided true else return .notImplemented

def askClass (ask : Ask) (a b : Ref) : Act Ref := do
  let w ← get
  match declaredHook? w a "__eq__" with
  | some found => callHook ask a "__eq__" found [b]
  | none =>
    match nativeHook? w a "__eq__" with
    | some .obj => ask (.call (← ask (.attribute a "equals")) [b] [])
    | _ => bodyEqual ask a b

/-- The class of the second object comes first if it is a proper subclass of that of the first. -/
def equal (ask : Ask) (a b : Ref) : Act Ref := do
  let w ← get
  let c := w.classOf a
  let d := w.classOf b
  let (x, y) := if c ≠ d && w.isSubclass d c then (b, a) else (a, b)
  match ← askClass ask x y with
  | .notImplemented =>
    match ← askClass ask y x with
    | .notImplemented => return .atom (.bool (a = b))
    | value => return value
  | value => return value

end Introspect.Dispatch
