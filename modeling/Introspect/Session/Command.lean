import Introspect.Session.Literal
import Introspect.Dispatch.Super
/-! What a session can be asked to do. -/
namespace Introspect.Session

/-! ## Classes -/

inductive EntryTerm where
  | function (body : Expr Literal) (binding : Binding) (isAbstract wraps looped : Bool)
      (codeName : Option String)
  | value (e : Literal)
  /-- The entry of an earlier key of the same class. -/
  | alias (key : String)
  | borrowed (id key : String)
  | property (body : Expr Literal)
  | nested (id : String)

structure ClassTerm where
  id : String
  name : String
  qualname : String
  modName : Option String
  bases : List String
  slots : Option (List String)
  entries : List (String × EntryTerm)
  /-- A local class is bound in no module. -/
  isLocal : Bool

inductive ClassCommand where
  | declare (term : ClassTerm)
  | assign (id key : String) (entry : EntryTerm)
  | erase (id key : String)
  | bind (moduleName name : String) (e : Literal)
  | drop (id : String)
  | hold (name : String) (type : TypeTerm)
  | release (name : String)

/-! ## Handles, types and slots -/

inductive HandleCommand where
  | className | type | refType | parents | ancestry | isTainted | taint | untaint | text | symbols
  | assignSymbol
  | isA (other : Literal)
  | isEqual (other : Literal)
  | can (name : String)
  | methods (withRoot justMine : Bool)
  | checksum (algorithm format : Literal)
  | dump (format : Literal)
  | super (args : List Literal)
  | isSubject (other : Literal)
  | hasIdentity (other : Literal)
  | equals (view : Dispatch.View) (other : Literal)

inductive TypeCommand where
  | itself | name | qname | isRoot | parents | ancestry | convertsToText | convertsToNumber
  | typeOf | cls | overloads | declared | symbols
  | methods (withRoot justMine : Bool)
  | method (name : String) (checked : Bool)
  | fits (other : Literal)
  | same (other : TypeTerm)

inductive SlotTerm where
  | named (qname : String) (checked : Bool)
  | ofType (type : TypeTerm) (name : String) (checked : Bool)

inductive SlotCommand where
  | itself | raw
  | call (args : List Literal)
  | callOn (receiver owner : Literal) (args : List Literal) (keywords : List (String × Literal))

/-! ## Values -/

inductive Inspection where
  | refType | isPlain | fields | isOverloaded | overloadedValue | looksNumeric | scalarsEqual
  | isEqual | slotNames
deriving DecidableEq

inductive BoxCommand where
  | value | text | make | convertText | convertInteger | convertReal | convertTruth
  | assign (value : Literal)

inductive Mutation where
  | setItem (key value : Literal)
  | deleteItem (key : Literal)
  | append (value : Literal)
  | add (value : Literal)
  | setAttribute (name : String) (value : Literal)

inductive Encoding where
  | perl (indent : Int)
  | json (indent : Option Int)
  | plain
  | yaml

inductive ValueCommand where
  | assign (name : String) (value : Literal)
  | identical (a b : Literal)
  | invoke (on : Literal) (name : String) (args : List Literal) (keywords : List (String × Literal))
  | mutate (on : Literal) (mutation : Mutation)
  | inspect (inspection : Inspection) (args : List Literal)
  | box (on : Literal) (command : BoxCommand)
  | encode (on : Literal) (encoding : Encoding)
  | error (term : ErrorTerm)

/-! ## Digests, configuration and logs -/

inductive DigestCommand where
  | checksum (data algorithm format : Literal)
  | new (name : String) (algorithm : Literal)
  | update (name : String) (data : Literal)
  | format (name : String) (format : Literal)
  | digest (name : String)
  | algorithm (name : String)
  | size (name : String)

inductive ConfigCommand where
  | setVariable (name value : String)
  | unsetVariable (name : String)
  | home (directory : Option String)
  | write (directory path : String) (content : List UInt8) (modified : Rat)
  | remove (directory path : String)
  | value (key : String) (fallback : Literal)
  | props (path : String)
  | parse (text source : String)
  | reload | workDir | environment | assignVariable | isSingle | text

inductive LogCommand where
  | new (name : Literal) (register : Bool) (as : String)
  | named (name : Literal) (as : String)
  | same (a b : String)
  | addRecorder (name : String) (fails : Bool)
  | removeRecorder (name : String)
  | addHandler (handler : Literal)
  | handlers
  | level (on : String)
  | setLevel (on level : String)
  | isEnabled (on level : String)
  | name (on : String)
  | write (on : String) (level : Level) (message : String) (cause : Option ErrorTerm)
  | ofText (value : Literal) (checked : Bool)
  | levels
  | record (level name message : String)
  | drain

inductive Command where
  | cls (command : ClassCommand)
  | handle (view : Dispatch.View) (on : Literal) (command : HandleCommand)
  | type (type : TypeTerm) (command : TypeCommand)
  | slot (slot : SlotTerm) (command : SlotCommand)
  | bareSlot (name : String) (flags : Int) (parent : Option TypeTerm)
  | value (command : ValueCommand)
  | digest (command : DigestCommand)
  | config (command : ConfigCommand)
  | log (command : LogCommand)

end Introspect.Session
