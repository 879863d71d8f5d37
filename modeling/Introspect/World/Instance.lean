import Introspect.World.Key
/-! New instances of classes, and attributes that are stored in them. -/
namespace Introspect

namespace World

/-- The native class whose content an instance of a class has. -/
def contentClass? (w : World) (c : ClassId) : Option Native :=
  (w.ancestry c).findSome? fun
    | .native n => if isContent n then some n else none
    | .declared _ => none
where
  isContent : Native → Bool
    | .int | .float | .complex | .str | .bytes | .bytearray | .list | .tuple | .dict | .set
    | .frozenset | .deque | .decimal | .fraction | .scalar | .host _ => true
    | _ => false

/-- What an instance holds that was given no content. -/
def emptyBody : Option Native → Body
  | some .int => .atom (Atom.int 0)
  | some .float => .atom (.number (.float zero))
  | some .complex => .atom (.number (.complex zero zero))
  | some .decimal => .atom (.number (.decimal (.finite false 0 0)))
  | some .fraction => .atom (.number (.fraction 0 1))
  | some .str => .atom (.text "")
  | some .bytes => .atom (.bytes [])
  | some .bytearray => .byteArray []
  | some .list | some .tuple | some .deque => .sequence []
  | some .dict => .mapping []
  | some .set | some .frozenset => .members []
  | some .scalar => .box (.atom .none) false
  | some (.host _) => .error (.atom .none) (.atom .none)
  | _ => .nothing
where
  zero : Double := .finite false 0 (-1074)

/-- What an instance of a class holds that has no content of its own: below the numbers it is a number
that only its place tells from others, and below the streams it is a stream. -/
def bodyOfInstance (w : World) (c : ClassId) : Body → Body
  | .nothing =>
    if w.isSubclass c (.native .numeric) then .atom (.number (.declared w.cells.size))
    else if w.isSubclass c (.native .ioBase) then .stream
    else .nothing
  | body => body

end World

namespace Act

def instantiate (c : ClassId) (body : Body) : Act Ref := do
  let w ← get
  alloc ⟨c, w.bodyOfInstance c body, [], if w.hasDictionary c then some [] else none⟩

/-- Stores an attribute in what an object holds, in its slot, or in its attribute dictionary. -/
def storeAttribute (address : Nat) (name : String) (value : Ref) : Act Unit := do
  let w ← get
  match w.cells[address]? with
  | none => throw .attributeError
  | some cell =>
    match w.entryOf? cell.cls name with
    | some (_, .property _) => throw .attributeError
    | some (holder, .slot _) =>
      modifyCell address fun cell =>
        { cell with slots := ((holder, name), value) :: cell.slots.filter (·.1 ≠ (holder, name)) }
    | _ =>
      match cell.body, name, cell.attributes with
      | .box _ tainted, "_val", _ => modifyCell address ({ · with body := .box value tainted })
      | .box inner _, "_tainted", _ =>
        modifyCell address ({ · with body := .box inner (value = .atom (.bool true)) })
      | .error _ cause, "_msg", _ => modifyCell address ({ · with body := .error value cause })
      | .error message _, "_cause", _ => modifyCell address ({ · with body := .error message value })
      | _, _, some pairs =>
        modifyCell address ({ · with attributes := some (Pairs.put name value pairs) })
      | _, _, none => throw .attributeError

def setAttribute (r : Ref) (name : String) (value : Ref) : Act Unit :=
  match r with
  | .cell address => storeAttribute address name value
  | _ => throw .attributeError

end Act

end Introspect
