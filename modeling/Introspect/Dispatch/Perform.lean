import Introspect.Dispatch.Call
import Introspect.Dispatch.Convert
import Introspect.Dispatch.Eval
/-! Requests answered down to a limit of nesting. -/
namespace Introspect.Dispatch

def handle (ask : Ask) : Ask
  | .call f args keywords => call ask f args keywords
  | .eval frame e => eval ask frame e
  | .attribute r name => attributeOf ask r name
  | .text r => text ask r
  | .display active r => display ask active r
  | .integer r => integer ask r
  | .real r => real ask r
  | .truth r => truth ask r
  | .equal a b => equal ask a b

def perform : Nat → Ask
  | 0, _ => throw .nesting
  | depth + 1, request => handle (perform depth) request

def ask : Ask := fun request => do perform (← get).nesting request

end Introspect.Dispatch
