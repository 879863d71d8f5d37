/-!
The order in which a class and its ancestors are searched: each class before its parents, and
parents in the order in which each class names them.
-/
namespace Introspect.Linearization

variable {α : Type} [DecidableEq α]

/-- The first head that stands behind no other head. -/
def candidate? (rows : List (List α)) : Option α :=
  (rows.filterMap List.head?).find? fun c => rows.all fun row => !row.tail.contains c

def dropHead (c : α) : List α → List α
  | [] => []
  | x :: rest => if x = c then rest else x :: rest

/-- Takes one candidate after the other, at most `fuel` of them. -/
def merge? : Nat → List (List α) → Option (List α)
  | 0, rows => if rows.all List.isEmpty then some [] else none
  | fuel + 1, rows =>
    if rows.all List.isEmpty then some []
    else do
      let c ← candidate? rows
      return c :: (← merge? fuel (rows.map (dropHead c)))

/-- The order of a new class from its parents and their orders; none if they contradict. -/
def linearize? (self : α) (parents : List α) (orders : List (List α)) : Option (List α) :=
  let rows := orders ++ [parents]
  (merge? rows.flatten.length rows).map (self :: ·)

end Introspect.Linearization
