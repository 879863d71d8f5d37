import Introspect.Fault
/-! Pure expressions, the bodies of declared functions, over the values that stand in them. -/
namespace Introspect

inductive Expr (value : Type) where
  | value (v : value)
  | self
  | arg (index : Int)
  | keyword (name : String)
  | argCount
  | attribute (name : String)
  | get (e : Expr value) (name : String)
  | list (items : List (Expr value))
  | add (a b : Expr value)
  | equal (a b : Expr value)
  | text (e : Expr value)
  | isInstance (e : Expr value) (cls : String)
  | cond (c t e : Expr value)
  | notImplemented
  | className (e : Expr value)
  | call (e : Expr value) (name : String) (args : List (Expr value))
  | raise (fault : Fault)
  | super (args : List (Expr value)) (keywords : List (String × Expr value))
      (subject : Option (Expr value)) (asType : Bool)

namespace Expr

variable {α β : Type} {m : Type → Type} [Monad m]

mutual

/-- The same expression over other values, which are found in the order in which they stand. -/
def traverse (f : α → m β) : Expr α → m (Expr β)
  | .value v => do return .value (← f v)
  | .self => return .self
  | .arg index => return .arg index
  | .keyword name => return .keyword name
  | .argCount => return .argCount
  | .attribute name => return .attribute name
  | .get e name => do return .get (← traverse f e) name
  | .list items => do return .list (← traverseItems f items)
  | .add a b => do return .add (← traverse f a) (← traverse f b)
  | .equal a b => do return .equal (← traverse f a) (← traverse f b)
  | .text e => do return .text (← traverse f e)
  | .isInstance e cls => do return .isInstance (← traverse f e) cls
  | .cond c t e => do return .cond (← traverse f c) (← traverse f t) (← traverse f e)
  | .notImplemented => return .notImplemented
  | .className e => do return .className (← traverse f e)
  | .call e name args => do return .call (← traverse f e) name (← traverseItems f args)
  | .raise fault => return .raise fault
  | .super args keywords none asType => do
    return .super (← traverseItems f args) (← traversePairs f keywords) none asType
  | .super args keywords (some subject) asType => do
    return .super (← traverseItems f args) (← traversePairs f keywords)
      (some (← traverse f subject)) asType

def traverseItems (f : α → m β) : List (Expr α) → m (List (Expr β))
  | [] => return []
  | e :: rest => do return (← traverse f e) :: (← traverseItems f rest)

def traversePairs (f : α → m β) : List (String × Expr α) → m (List (String × Expr β))
  | [] => return []
  | (name, e) :: rest => do return (name, ← traverse f e) :: (← traversePairs f rest)

end

end Expr

end Introspect
