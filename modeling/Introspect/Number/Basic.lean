import Introspect.Number.Shortest
import Introspect.Number.Decimal
/-!
Numbers of five kinds, compared exactly across the kinds, and numbers of declared classes, which have no
value: each equals itself alone.
-/
namespace Introspect

inductive Number where
  | int (i : Int)
  | float (x : Double)
  | decimal (d : Decimal)
  | fraction (num : Int) (den : Nat)
  | complex (re im : Double)
  | declared (address : Nat)
deriving DecidableEq

/-- A point of the extended real line, or one that a number of a declared class has to itself. -/
inductive Extended where
  | finite (r : Rat)
  | infinite (negative : Bool)
  | beside (address : Nat)
deriving DecidableEq

def Double.extended? : Double → Option Extended
  | .nan => none
  | .infinite negative => some (.infinite negative)
  | .finite negative m q => some (.finite (Double.finiteValue negative m q))

def Decimal.extended? : Decimal → Option Extended
  | .nan .. => none
  | .infinite negative => some (.infinite negative)
  | .finite negative c e =>
    let size : Rat := mkRat (c * Nat.pow 10 e.toNat : Nat) (Nat.pow 10 (-e).toNat)
    some (.finite (if negative then -size else size))

namespace Number

/-- The exact value, a real and an imaginary part; none if a part is not a number. -/
def quantity? : Number → Option (Extended × Extended)
  | .int i => some (.finite i, .finite 0)
  | .float x => x.extended?.map (·, .finite 0)
  | .decimal d => d.extended?.map (·, .finite 0)
  | .fraction n d => some (.finite (mkRat n d), .finite 0)
  | .complex re im => do return (← re.extended?, ← im.extended?)
  | .declared address => some (.beside address, .finite 0)

def same (a b : Number) : Bool :=
  match a.quantity?, b.quantity? with
  | some p, some q => p == q
  | _, _ => false

def isFloatNan : Number → Bool
  | .float x => x.isNan
  | _ => false

/-- Both parts in one text; the real part is left out when it is a positive zero. -/
def complexText (re im : Double) : String :=
  let imText := Double.textWith "" im ++ "j"
  match re with
  | .finite false 0 _ => imText
  | _ => "(" ++ Double.textWith "" re ++ (if imText.startsWith "-" then "" else "+") ++ imText ++ ")"

def text : Number → String
  | .int i => toString i
  | .float x => x.text
  | .decimal d => d.text
  | .fraction n d => if d = 1 then toString n else toString n ++ "/" ++ toString d
  | .complex re im => complexText re im
  | .declared _ => "<numbers.Number object at @ID>"

def display : Number → String
  | .decimal d => "Decimal('" ++ d.text ++ "')"
  | .fraction n d => "Fraction(" ++ toString n ++ ", " ++ toString d ++ ")"
  | n => n.text

def isNonzero : Number → Bool
  | .int i => i ≠ 0
  | .float x => x.isNonzero
  | .decimal (.finite _ c _) => c ≠ 0
  | .decimal _ => true
  | .fraction n _ => n ≠ 0
  | .complex re im => re.isNonzero || im.isNonzero
  | .declared _ => true

end Number

end Introspect
