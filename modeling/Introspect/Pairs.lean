/-!
Lists of pairs with at most one pair for each key, in the order in which the keys were first put.
-/
namespace Introspect.Pairs

variable {α : Type}

/-- A key that is there already keeps its place. -/
def put (key : String) (value : α) : List (String × α) → List (String × α)
  | [] => [(key, value)]
  | (k, v) :: rest => if k = key then (k, value) :: rest else (k, v) :: put key value rest

def erase (key : String) (pairs : List (String × α)) : List (String × α) :=
  pairs.filter (·.1 ≠ key)

def putAll (pairs more : List (String × α)) : List (String × α) :=
  more.foldl (fun found p => put p.1 p.2 found) pairs

end Introspect.Pairs
