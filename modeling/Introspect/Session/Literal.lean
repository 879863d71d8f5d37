import Introspect.World.Ref
/-! Values, types and errors as they are written down, before they are made in a world. -/
namespace Introspect.Session

mutual

inductive Literal where
  | atom (a : Atom)
  | tainted (s : String)
  | collection (kind : Native) (items : List Literal)
  | mapping (kind : Native) (entries : List (Literal × Literal))
  | range (start stop step : Int)
  | byteArray (content : List UInt8)
  | box (value : Literal) (tainted : Bool)
  | routine (name : String)
  | partialCall (name : String)
  | bound (e : Literal) (name : String)
  | stream
  | bareObject
  | ellipsis
  | cls (id : String)
  | type (t : TypeTerm)
  | error (e : ErrorTerm)
  | known (name : String)
  /-- An instance made without being initialized. -/
  | object (cls : String) (content : Option Literal) (attributes : List (String × Literal))

inductive TypeTerm where
  | named (qname : String) (checked : Bool)
  | ofClass (id : String)
  | of (e : Literal)
  | held (name : String)

inductive ErrorTerm where
  | own (kind : ErrorKind) (message : Literal) (cause : Option ErrorTerm)
  | host (kind : HostKind) (message : String)

end

namespace Literal

def none : Literal := .atom .none

def text (s : String) : Literal := .atom (.text s)

def number? (n : Option Number) : Option Literal := n.map fun n => .atom (.number n)

def float? (s : String) : Option Literal :=
  number? ((Numeral.readDouble? s).map .float)

def decimal? (s : String) : Option Literal := number? ((Decimal.ofText? s).map .decimal)

/-- A fraction in lowest terms. -/
def fraction (num den : Int) : Literal :=
  let r := num / (den : Rat)
  .atom (.number (.fraction r.num r.den))

def complex? (re im : String) : Option Literal := do
  number? (some (.complex (← Numeral.readDouble? re) (← Numeral.readDouble? im)))

def int? (s : String) : Option Literal := number? ((Numeral.readInt? s).map .int)

end Literal

end Introspect.Session
