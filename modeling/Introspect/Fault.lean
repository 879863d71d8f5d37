import Introspect.Class.ErrorKind
/-! What can go wrong, by cause. -/
namespace Introspect

inductive Fault where
  | unknownType (name : String)
  | goneType (name : String)
  | unknownSlot (name : String)
  | malformedSlot (name : String)
  | notMember (operation type : String)
  | noParent (operation type : String)
  | badAlgorithm (name : String)
  | badDigestFormat (name : String)
  | badDumpFormat (name : String)
  | indentNotInteger (value : String)
  | indentNegative (value : String)
  | notSerializable (type : String)
  | cyclic (type : String)
  | cannotTaintConverted
  | cannotTaintPlain (type : String)
  | cannotTaint
  | cannotUntaintText
  | cannotUntaintConverted
  | badProps (source : String) (line : Nat) (text : String)
  | badLevel (name : String)
  | badLogName (name : String)
  | logExists (name : String)
  | handlerNotCallable
  | raised (kind : ErrorKind) (message : String)
  | host (kind : HostKind) (message : String)
deriving DecidableEq

namespace Fault

def named? (name message : String) : Option Fault :=
  ((ErrorKind.all.find? (·.name = name)).map fun kind => .raised kind message).or
    ((HostKind.all.find? (·.name = name)).map fun kind => .host kind message)

def typeError : Fault := .host .typeError ""
def valueError : Fault := .host .valueError ""
def attributeError : Fault := .host .attributeError ""
def overflow : Fault := .host .overflowError ""
def nesting : Fault := .host .recursionError ""

def kind? : Fault → Option ErrorKind
  | .unknownType _ | .goneType _ => some .unknownType
  | .unknownSlot _ | .malformedSlot _ | .notMember .. | .noParent .. => some .unknownSlot
  | .badAlgorithm _ | .badDigestFormat _ | .badDumpFormat _ | .indentNotInteger _
  | .indentNegative _ | .badLogName _ | .logExists _ | .handlerNotCallable => some .argument
  | .notSerializable _ | .cyclic _ => some .io
  | .cannotTaintConverted | .cannotTaintPlain _ | .cannotTaint => some .unsupported
  | .cannotUntaintText | .cannotUntaintConverted => some .hazard
  | .badProps .. | .badLevel _ => some .parse
  | .raised kind _ => some kind
  | .host .. => none

/-- Interrupts and exits go through where all other faults of a handler are caught. -/
def isGuarded : Fault → Bool
  | .host .baseException _ | .host .keyboardInterrupt _ | .host .systemExit _ | .host .generatorExit _ => false
  | _ => true

def message : Fault → String
  | .unknownType name => name
  | .goneType name => "Class no longer exists: " ++ name
  | .unknownSlot name => name
  | .malformedSlot name => "Invalid slot qname: " ++ name
  | .notMember operation type => operation ++ " is not a method of " ++ type
  | .noParent operation type => "No parent method " ++ operation ++ " for " ++ type
  | .badAlgorithm name => "algorithm must be sha1 or md5: " ++ name
  | .badDigestFormat name => "format must be hex, base64, binary: " ++ name
  | .badDumpFormat name => "format must be perl, json, yaml: " ++ name
  | .indentNotInteger value => "dump.indent must be an integer: " ++ value
  | .indentNegative value => "dump.indent must not be negative: " ++ value
  | .notSerializable type => "Not serializable: " ++ type
  | .cyclic type => "Cyclic structure: " ++ type
  | .cannotTaintConverted => "Untainted overloaded objects cannot normally be made tainted"
  | .cannotTaintPlain type =>
    "Immutable " ++ type ++ " values cannot be tainted in place; wrap it in a Scalar"
  | .cannotTaint => "Only scalars can normally be made tainted"
  | .cannotUntaintText =>
    "Tainted strings are immutable and cannot be untainted; wrap it in a Scalar"
  | .cannotUntaintConverted => "Tainted overloaded objects cannot normally be untainted"
  | .badProps source line text =>
    "Invalid props line " ++ source ++ ":" ++ toString line ++ ": " ++ text
  | .badLevel name => "Unknown log level: " ++ name
  | .badLogName name => "Invalid log name: " ++ name
  | .logExists name => "Log already registered: " ++ name
  | .handlerNotCallable => "Handler must be callable"
  | .raised _ message => message
  | .host _ message => message

end Fault

end Introspect
