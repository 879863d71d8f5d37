import Introspect.Class.ErrorKind
/-! The classes that exist without being declared. -/
namespace Introspect

inductive Native where
  | object | type | noneType | int | bool | float | complex | str | bytes | bytearray | list
  | tuple | range | dict | set | frozenset | mappingProxy | dictKeys | orderedDict
  | defaultDict | deque | decimal | numeric | complexNumeric | realNumeric | rational
  | fraction | function | builtinFunction | boundMethod | methodDescriptor | wrapperDescriptor
  | partialCall | property | classMethod | staticMethod | slotMember | ellipsis
  | notImplemented | weakReference | ioBase | textIOBase | stringIO
  | host (kind : HostKind)
  | error (kind : ErrorKind)
  | digest | env | logLevel | logRecord | log | handle | instanceHandle | classHandle | method
  | obj | objUtil | taintedStr | scalar | slotFlags | slot | taint | descriptor | jsonEncoder
  | perlEncoder | plainEncoder | yamlEncoder
deriving DecidableEq

namespace Native

/-- The module and the name within it; classes of `builtins` are known by their name alone. -/
def fullName : Native → String × String
  | .object => ("builtins", "object")
  | .type => ("builtins", "type")
  | .noneType => ("builtins", "NoneType")
  | .int => ("builtins", "int")
  | .bool => ("builtins", "bool")
  | .float => ("builtins", "float")
  | .complex => ("builtins", "complex")
  | .str => ("builtins", "str")
  | .bytes => ("builtins", "bytes")
  | .bytearray => ("builtins", "bytearray")
  | .list => ("builtins", "list")
  | .tuple => ("builtins", "tuple")
  | .range => ("builtins", "range")
  | .dict => ("builtins", "dict")
  | .set => ("builtins", "set")
  | .frozenset => ("builtins", "frozenset")
  | .mappingProxy => ("builtins", "mappingproxy")
  | .dictKeys => ("builtins", "dict_keys")
  | .orderedDict => ("collections", "OrderedDict")
  | .defaultDict => ("collections", "defaultdict")
  | .deque => ("collections", "deque")
  | .decimal => ("decimal", "Decimal")
  | .numeric => ("numbers", "Number")
  | .complexNumeric => ("numbers", "Complex")
  | .realNumeric => ("numbers", "Real")
  | .rational => ("numbers", "Rational")
  | .fraction => ("fractions", "Fraction")
  | .function => ("builtins", "function")
  | .builtinFunction => ("builtins", "builtin_function_or_method")
  | .boundMethod => ("builtins", "method")
  | .methodDescriptor => ("builtins", "method_descriptor")
  | .wrapperDescriptor => ("builtins", "wrapper_descriptor")
  | .partialCall => ("functools", "partial")
  | .property => ("builtins", "property")
  | .classMethod => ("builtins", "classmethod")
  | .staticMethod => ("builtins", "staticmethod")
  | .slotMember => ("builtins", "member_descriptor")
  | .ellipsis => ("builtins", "ellipsis")
  | .notImplemented => ("builtins", "NotImplementedType")
  | .weakReference => ("weakref", "ReferenceType")
  | .ioBase => ("_io", "_IOBase")
  | .textIOBase => ("_io", "_TextIOBase")
  | .stringIO => ("_io", "StringIO")
  | .host .invalidOperation => ("decimal", "InvalidOperation")
  | .host .representerError => ("yaml.representer", "RepresenterError")
  | .host kind => ("builtins", kind.name)
  | .error kind => ("objmeta.Err", kind.name)
  | .digest => ("objmeta.Digest", "Digest")
  | .env => ("objmeta.Env", "Env")
  | .logLevel => ("objmeta.Log", "LogLevel")
  | .logRecord => ("objmeta.Log", "LogRec")
  | .log => ("objmeta.Log", "Log")
  | .handle => ("objmeta.Meta", "Meta")
  | .instanceHandle => ("objmeta.Meta", "InstanceMeta")
  | .classHandle => ("objmeta.Meta", "ClassMeta")
  | .method => ("objmeta.Method", "Method")
  | .obj => ("objmeta.Obj", "Obj")
  | .objUtil => ("objmeta.ObjUtil", "ObjUtil")
  | .taintedStr => ("objmeta.Scalar", "TaintedStr")
  | .scalar => ("objmeta.Scalar", "Scalar")
  | .slotFlags => ("objmeta.Slot", "FConst")
  | .slot => ("objmeta.Slot", "Slot")
  | .taint => ("objmeta.Taint", "Taint")
  | .descriptor => ("objmeta.Type", "Type")
  | .jsonEncoder => ("objmetax.JsonEncoder", "JsonEncoder")
  | .perlEncoder => ("objmetax.PerlEncoder", "PerlEncoder")
  | .plainEncoder => ("objmetax.PlainEncoder", "PlainEncoder")
  | .yamlEncoder => ("objmetax.YamlEncoder", "YamlEncoder")

def parents : Native → List Native
  | .object => []
  | .bool => [.int]
  | .orderedDict | .defaultDict => [.dict]
  | .complexNumeric => [.numeric]
  | .realNumeric => [.complexNumeric]
  | .rational => [.realNumeric]
  | .fraction => [.rational]
  | .textIOBase => [.ioBase]
  | .stringIO => [.textIOBase]
  | .digest | .env | .logLevel | .logRecord | .log | .handle => [.obj]
  | .scalar | .slot | .descriptor => [.obj]
  | .instanceHandle | .classHandle => [.handle]
  | .method => [.slot]
  | .taintedStr => [.str]
  | .host kind => [kind.parent?.elim .object .host]
  | .error .base => [.host .exception, .obj]
  | .error _ => [.error .base]
  | _ => [.object]

def all : List Native :=
  [.object, .type, .noneType, .int, .bool, .float, .complex, .str, .bytes, .bytearray, .list,
   .tuple, .range, .dict, .set, .frozenset, .mappingProxy, .dictKeys, .orderedDict,
   .defaultDict, .deque, .decimal, .numeric, .complexNumeric, .realNumeric, .rational,
   .fraction, .function, .builtinFunction, .boundMethod, .methodDescriptor, .wrapperDescriptor,
   .partialCall, .property, .classMethod, .staticMethod, .slotMember, .ellipsis,
   .notImplemented, .weakReference, .ioBase, .textIOBase, .stringIO, .digest, .env, .logLevel,
   .logRecord, .log, .handle, .instanceHandle, .classHandle, .method, .obj, .objUtil,
   .taintedStr, .scalar, .slotFlags, .slot, .taint, .descriptor, .jsonEncoder, .perlEncoder,
   .plainEncoder, .yamlEncoder] ++
    HostKind.all.map .host ++ ErrorKind.all.map .error

end Native

end Introspect
