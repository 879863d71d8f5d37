import Introspect.World.Basic
/-! What is held: everything that the references at hand lead to. -/
namespace Introspect

/-- The values that stand in an expression. -/
def Expr.values {α : Type} (e : Expr α) : List α :=
  ((e.traverse (m := StateM (List α)) fun v => modify (v :: ·)).run []).2

def Body.holdings : Body → List Ref
  | .sequence items | .members items => items
  | .mapping entries => entries.flatMap fun (k, v) => [k, v]
  | .box value _ => [value]
  | .error message cause => [message, cause]
  | .bound receiver f => [receiver, f]
  | .partialCall f => [f]
  | .routine r => [.routine r]
  | .cls c => [.cls c]
  | .descriptor id => [.descriptor id]
  | .atom _ | .range .. | .byteArray _ | .methodWrapper | .stream | .nothing => []

def Cell.holdings (cell : Cell) : List Ref :=
  .cls cell.cls ::
    (cell.body.holdings ++ cell.slots.map (·.2) ++ (cell.attributes.getD []).map (·.2))

def Entry.holdings : Entry → List Ref
  | .value r | .classLevel r | .static r => [r]
  | .property f => [.routine (.function f)]
  | .native .. | .slot _ => []

def Function.holdings (f : Function) : List Ref :=
  f.body.values ++ f.wraps.toList.map fun i => .routine (.function i)

namespace World

/-- The references that an object holds itself. Neither a descriptor nor a weak reference holds the
class that it is about. -/
def holdings (w : World) : Ref → List Ref
  | .cell i => (w.cells[i]?).elim [] Cell.holdings
  | .cls (.declared i) =>
    (w.ancestry (.declared i)).map .cls ++
      (w.info (.declared i)).entries.flatMap fun (_, e) => e.holdings
  | .routine (.function i) => (w.functions[i]?).elim [] Function.holdings
  | .entry c _ => [.cls c]
  | _ => []

/-- Adds what is held to what was found, at most `rounds` times. -/
def reachWithin (w : World) : Nat → List Ref → List Ref
  | 0, found => found
  | rounds + 1, found =>
    let more := (found.flatMap w.holdings).eraseDups.filter fun r => !found.contains r
    if more.isEmpty then found else reachWithin w rounds (found ++ more)

/-- Everything that the given references lead to. A way to an object passes each object, function
and class, and an entry before each class, at most once. -/
def reach (w : World) (found : List Ref) : List Ref :=
  w.reachWithin (w.cells.size + w.functions.size + 2 * w.classes.size + 1) found

end World

end Introspect
