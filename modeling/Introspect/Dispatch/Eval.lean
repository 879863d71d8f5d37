import Introspect.Dispatch.Super
/-! Evaluation of the bodies of declared functions. -/
namespace Introspect.Dispatch

/-- Sums of two lists, two tuples, two texts, two byte strings or two integers. -/
def sum (a b : Ref) : Act Ref := do
  let w ← get
  match w.body a, w.body b with
  | .sequence xs, .sequence ys =>
    if w.isInstance a .list && w.isInstance b .list then Act.list (xs ++ ys)
    else if w.isInstance a .tuple && w.isInstance b .tuple then Act.tuple (xs ++ ys)
    else throw .typeError
  | .atom (.text s), .atom (.text t) => Act.text (s ++ t)
  | .atom (.bytes s), .atom (.bytes t) => Act.atom (.bytes (s ++ t))
  | .atom x, .atom y =>
    match x.number?, y.number? with
    | some (.int i), some (.int j) => Act.atom (Atom.int (i + j))
    | _, _ => throw .typeError
  | _, _ => throw .typeError

/-- The class that an identifier stands for: a declared one, or else a native one by its name. -/
def classNamed? (w : World) (id : String) : Option ClassId :=
  (w.ids.lookup id).or ((Native.all.find? (·.fullName.2 = id)).map .native)

/-- An argument by position, counted from the end if negative. -/
def argument (args : List Ref) (index : Int) : Act Ref :=
  let position := if index < 0 then index + args.length else index
  match if position < 0 then none else args[position.toNat]? with
  | some r => return r
  | none => throw (.host .indexError "")

def receiverOf (frame : Frame) : Ref := frame.receiver.getD (.atom .none)

def evalAll (ask : Ask) (frame : Frame) (es : List (Expr Ref)) : Act (List Ref) :=
  es.mapM fun e => ask (.eval frame e)

def eval (ask : Ask) (frame : Frame) : Expr Ref → Act Ref
  | .value r => return r
  | .self => return receiverOf frame
  | .arg index => argument frame.args index
  | .keyword name =>
    match frame.keywords.lookup name with
    | some r => return r
    | none => throw (.host .keyError "")
  | .argCount => Act.atom (Atom.int frame.args.length)
  | .attribute name => ask (.attribute (receiverOf frame) name)
  | .get e name => do ask (.attribute (← ask (.eval frame e)) name)
  | .list items => do Act.list (← evalAll ask frame items)
  | .add a b => do
    let a ← ask (.eval frame a)
    let b ← ask (.eval frame b)
    sum a b
  | .equal a b => do
    let a ← ask (.eval frame a)
    let b ← ask (.eval frame b)
    ask (.equal a b)
  | .text e => do ask (.text (← ask (.eval frame e)))
  | .isInstance e id => do
    let r ← ask (.eval frame e)
    let w ← get
    match classNamed? w id with
    | some c => return .atom (.bool (w.isSubclass (w.classOf r) c))
    | none => throw .typeError
  | .cond c t e => do
    if ← ask.isTrue (← ask (.eval frame c)) then ask (.eval frame t) else ask (.eval frame e)
  | .notImplemented => return .notImplemented
  | .className e => do ask (.attribute (← ask (.eval frame e)) "__name__")
  | .call e name args => do
    let f ← ask (.attribute (← ask (.eval frame e)) name)
    let args ← evalAll ask frame args
    ask (.call f args [])
  | .raise fault => throw fault
  | .super args keywords subject asType => do
    let subject ← match subject with
      | some e => ask (.eval frame e)
      | none => pure (receiverOf frame)
    let args ← evalAll ask frame args
    let keywords ← keywords.mapM fun (name, e) => do return (name, ← ask (.eval frame e))
    let w ← get
    let name := (w.function? frame.function).elim "" (·.name)
    callParent ask (some (.function frame.function)) name
      (if asType then .asType else .asData) subject args keywords

end Introspect.Dispatch
