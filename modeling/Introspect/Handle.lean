import Introspect.Registry.Members
import Introspect.Dispatch.Super
import Introspect.Digest.Basic
import Introspect.Equality
import Introspect.Taint
import Introspect.Perl.Encode
import Introspect.Data.Lower
import Introspect.Data.Json
import Introspect.Yaml.Document
/-!
Handles: everything that can be asked about one subject, looked at as data or as a type. Nothing is
added to the namespace of the subject, so that no name of its own is in the way.
-/
namespace Introspect

open Dispatch

structure Handle where
  view : View
  subject : Ref
deriving DecidableEq

namespace Handle

def type (h : Handle) : Act Nat := viewType ask h.view h.subject

def typeName (h : Handle) : Act Ref := do Act.text (← Registry.qname (← h.type))

/-- The name of the subject's type. A text that is looked at as a type is that name. -/
def className (h : Handle) : Act Ref := do
  match h.view, (← get).atom? h.subject with
  | .asType, some (.text _) => return h.subject
  | _, _ => h.typeName

def kindName : View → String
  | .asData => Native.instanceHandle.fullName.2
  | .asType => Native.classHandle.fullName.2

def text (h : Handle) : Act String := do
  return kindName h.view ++ "(" ++ (← ask.textOf (← h.className)) ++ identity ++ ")"

/-- The names of the subject's type and of its ancestors, in the order of dispatch. -/
def ancestry (h : Handle) : Act (List String) := do (← Registry.ancestry (← h.type)).mapM Registry.qname

/-- Whether a class, a descriptor or a name is among the subject's type and its ancestors. -/
def isA (h : Handle) (other : Ref) : Act Bool := do Registry.fits ask (← h.type) other

/-! ## Checksums -/

/-- An option that is given, else the configured one. -/
def optionValue (given : Ref) (key fallback : String) : Act Ref := do
  match given with
  | .atom .none => Act.text ((← Act.config (Config.value? key)).getD fallback)
  | r => return r

/-- The text that a checksum digests: the type of the subject and its content. -/
def digestedText (h : Handle) : Act String := do
  let qname ← Registry.qnameOf h.subject
  return qname ++ "\n" ++ (← Perl.encode h.subject 0)

/-- The digest of the subject's type and content. The format is looked at first. -/
def checksum (h : Handle) (algorithm format : Ref) : Act Ref := do
  let algorithm ← optionValue algorithm "checksum.algorithm" Algorithm.sha1.name
  let format ← optionValue format "checksum.format" "hex"
  let data ← h.digestedText
  let format ← Act.liftExcept (Digest.formatOf (← ask.textOf format))
  let algorithm ← Act.liftExcept (Digest.algorithmOf (← ask.textOf algorithm))
  Act.atom (Digest.checksum (Text.Utf8.encode data) algorithm format)

/-! ## Dumps -/

def jsonText (indent : Option Int) (r : Ref) : Act String := do
  Act.liftExcept (Json.render indent (← Lower.encode r))

/-- The text that a writer of documents makes of what an object is lowered to. -/
def yamlTextBy (dump : Data → Except Fault String) (r : Ref) : Act String := do
  Act.liftExcept (dump (← Lower.encode r))

def yamlText (r : Ref) : Act String := yamlTextBy Yaml.render r

def dumpIndent : Act Int := do
  let value := (← Act.config (Config.value? "dump.indent")).getD "2"
  match Numeral.readInt? value with
  | none => throw (.indentNotInteger value)
  | some indent => if indent < 0 then throw (.indentNegative value) else return indent

def dumpAs (h : Handle) (format : String) : Act String := do
  match Text.lowerWord format with
  | "perl" => Perl.encode h.subject (← dumpIndent)
  | "json" => jsonText none h.subject
  | "yaml" => yamlText h.subject
  | _ => throw (.badDumpFormat format)

def dump (h : Handle) (format : Ref) : Act String := do
  h.dumpAs (← ask.textOf (← optionValue format "dump.format" "perl"))

end Handle

end Introspect
