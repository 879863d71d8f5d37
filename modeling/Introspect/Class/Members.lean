import Introspect.Class.Native
/-! The namespaces of the native classes. -/
namespace Introspect

/-- What a namespace entry binds when it is taken from an instance or a class. -/
inductive Binding where
  | receiver | owner | nothing
deriving DecidableEq

/-- An entry in the namespace of a native class: an operation, with or without code of its own, or
other data. -/
inductive Member where
  | operation (binding : Binding) (coded isAbstract : Bool)
  | data
deriving DecidableEq

namespace Native

/-- Operations without code of their own. -/
def plain (names : List String) : List (String × Member) :=
  names.map (·, .operation .receiver false false)

def coded (binding : Binding) (names : List String) : List (String × Member) :=
  names.map (·, .operation binding true false)

def required (names : List String) : List (String × Member) :=
  names.map (·, .operation .receiver true true)

def data (names : List String) : List (String × Member) := names.map (·, .data)

def members : Native → List (String × Member)
  | .object =>
    plain ["__delattr__", "__dir__", "__eq__", "__format__", "__ge__",
      "__getattribute__", "__getstate__", "__gt__", "__hash__", "__init__", "__init_subclass__",
      "__le__", "__lt__", "__ne__", "__new__", "__reduce__", "__reduce_ex__", "__repr__",
      "__setattr__", "__sizeof__", "__str__", "__subclasshook__"] ++
    data ["__class__", "__doc__"]
  | .type =>
    plain ["__call__", "__delattr__", "__dir__", "__getattribute__", "__init__",
      "__instancecheck__", "__new__", "__or__", "__prepare__", "__repr__", "__ror__",
      "__setattr__", "__sizeof__", "__subclasscheck__", "__subclasses__", "mro"] ++
    data ["__abstractmethods__", "__annotations__", "__base__", "__bases__",
      "__basicsize__", "__dict__", "__dictoffset__", "__doc__", "__flags__", "__itemsize__",
      "__module__", "__mro__", "__name__", "__qualname__", "__text_signature__",
      "__weakrefoffset__"]
  | .noneType =>
    plain ["__bool__", "__new__", "__repr__"] ++
    data ["__doc__"]
  | .int =>
    plain ["__abs__", "__add__", "__and__", "__bool__", "__ceil__", "__divmod__",
      "__eq__", "__float__", "__floor__", "__floordiv__", "__format__", "__ge__",
      "__getattribute__", "__getnewargs__", "__gt__", "__hash__", "__index__", "__int__",
      "__invert__", "__le__", "__lshift__", "__lt__", "__mod__", "__mul__", "__ne__", "__neg__",
      "__new__", "__or__", "__pos__", "__pow__", "__radd__", "__rand__", "__rdivmod__",
      "__repr__", "__rfloordiv__", "__rlshift__", "__rmod__", "__rmul__", "__ror__", "__round__",
      "__rpow__", "__rrshift__", "__rshift__", "__rsub__", "__rtruediv__", "__rxor__",
      "__sizeof__", "__sub__", "__truediv__", "__trunc__", "__xor__", "as_integer_ratio",
      "bit_count", "bit_length", "conjugate", "from_bytes", "to_bytes"] ++
    data ["__doc__", "denominator", "imag", "numerator", "real"]
  | .bool =>
    plain ["__and__", "__new__", "__or__", "__rand__", "__repr__", "__ror__",
      "__rxor__", "__xor__"] ++
    data ["__doc__"]
  | .float =>
    plain ["__abs__", "__add__", "__bool__", "__ceil__", "__divmod__", "__eq__",
      "__float__", "__floor__", "__floordiv__", "__format__", "__ge__", "__getattribute__",
      "__getformat__", "__getnewargs__", "__gt__", "__hash__", "__int__", "__le__", "__lt__",
      "__mod__", "__mul__", "__ne__", "__neg__", "__new__", "__pos__", "__pow__", "__radd__",
      "__rdivmod__", "__repr__", "__rfloordiv__", "__rmod__", "__rmul__", "__round__",
      "__rpow__", "__rsub__", "__rtruediv__", "__sub__", "__truediv__", "__trunc__",
      "as_integer_ratio", "conjugate", "fromhex", "hex", "is_integer"] ++
    data ["__doc__", "imag", "real"]
  | .complex =>
    plain ["__abs__", "__add__", "__bool__", "__complex__", "__eq__", "__format__",
      "__ge__", "__getattribute__", "__getnewargs__", "__gt__", "__hash__", "__le__", "__lt__",
      "__mul__", "__ne__", "__neg__", "__new__", "__pos__", "__pow__", "__radd__", "__repr__",
      "__rmul__", "__rpow__", "__rsub__", "__rtruediv__", "__sub__", "__truediv__", "conjugate"] ++
    data ["__doc__", "imag", "real"]
  | .str =>
    plain ["__add__", "__contains__", "__eq__", "__format__", "__ge__",
      "__getattribute__", "__getitem__", "__getnewargs__", "__gt__", "__hash__", "__iter__",
      "__le__", "__len__", "__lt__", "__mod__", "__mul__", "__ne__", "__new__", "__repr__",
      "__rmod__", "__rmul__", "__sizeof__", "__str__", "capitalize", "casefold", "center",
      "count", "encode", "endswith", "expandtabs", "find", "format", "format_map", "index",
      "isalnum", "isalpha", "isascii", "isdecimal", "isdigit", "isidentifier", "islower",
      "isnumeric", "isprintable", "isspace", "istitle", "isupper", "join", "ljust", "lower",
      "lstrip", "partition", "removeprefix", "removesuffix", "replace", "rfind", "rindex",
      "rjust", "rpartition", "rsplit", "rstrip", "split", "splitlines", "startswith", "strip",
      "swapcase", "title", "translate", "upper", "zfill"] ++
    [("maketrans", .operation .nothing false false)] ++
    data ["__doc__"]
  | .bytes =>
    plain ["__add__", "__bytes__", "__contains__", "__eq__", "__ge__",
      "__getattribute__", "__getitem__", "__getnewargs__", "__gt__", "__hash__", "__iter__",
      "__le__", "__len__", "__lt__", "__mod__", "__mul__", "__ne__", "__new__", "__repr__",
      "__rmod__", "__rmul__", "__str__", "capitalize", "center", "count", "decode", "endswith",
      "expandtabs", "find", "fromhex", "hex", "index", "isalnum", "isalpha", "isascii",
      "isdigit", "islower", "isspace", "istitle", "isupper", "join", "ljust", "lower", "lstrip",
      "partition", "removeprefix", "removesuffix", "replace", "rfind", "rindex", "rjust",
      "rpartition", "rsplit", "rstrip", "split", "splitlines", "startswith", "strip", "swapcase",
      "title", "translate", "upper", "zfill"] ++
    [("maketrans", .operation .nothing false false)] ++
    data ["__doc__"]
  | .bytearray =>
    plain ["__add__", "__alloc__", "__contains__", "__delitem__", "__eq__", "__ge__",
      "__getattribute__", "__getitem__", "__gt__", "__iadd__", "__imul__", "__init__",
      "__iter__", "__le__", "__len__", "__lt__", "__mod__", "__mul__", "__ne__", "__new__",
      "__reduce__", "__reduce_ex__", "__repr__", "__rmod__", "__rmul__", "__setitem__",
      "__sizeof__", "__str__", "append", "capitalize", "center", "clear", "copy", "count",
      "decode", "endswith", "expandtabs", "extend", "find", "fromhex", "hex", "index", "insert",
      "isalnum", "isalpha", "isascii", "isdigit", "islower", "isspace", "istitle", "isupper",
      "join", "ljust", "lower", "lstrip", "partition", "pop", "remove", "removeprefix",
      "removesuffix", "replace", "reverse", "rfind", "rindex", "rjust", "rpartition", "rsplit",
      "rstrip", "split", "splitlines", "startswith", "strip", "swapcase", "title", "translate",
      "upper", "zfill"] ++
    [("maketrans", .operation .nothing false false)] ++
    data ["__doc__", "__hash__"]
  | .list =>
    plain ["__add__", "__class_getitem__", "__contains__", "__delitem__", "__eq__",
      "__ge__", "__getattribute__", "__getitem__", "__gt__", "__iadd__", "__imul__", "__init__",
      "__iter__", "__le__", "__len__", "__lt__", "__mul__", "__ne__", "__new__", "__repr__",
      "__reversed__", "__rmul__", "__setitem__", "__sizeof__", "append", "clear", "copy",
      "count", "extend", "index", "insert", "pop", "remove", "reverse", "sort"] ++
    data ["__doc__", "__hash__"]
  | .tuple =>
    plain ["__add__", "__class_getitem__", "__contains__", "__eq__", "__ge__",
      "__getattribute__", "__getitem__", "__getnewargs__", "__gt__", "__hash__", "__iter__",
      "__le__", "__len__", "__lt__", "__mul__", "__ne__", "__new__", "__repr__", "__rmul__",
      "count", "index"] ++
    data ["__doc__"]
  | .range =>
    plain ["__bool__", "__contains__", "__eq__", "__ge__", "__getattribute__",
      "__getitem__", "__gt__", "__hash__", "__iter__", "__le__", "__len__", "__lt__", "__ne__",
      "__new__", "__reduce__", "__repr__", "__reversed__", "count", "index"] ++
    data ["__doc__", "start", "step", "stop"]
  | .dict =>
    plain ["__class_getitem__", "__contains__", "__delitem__", "__eq__", "__ge__",
      "__getattribute__", "__getitem__", "__gt__", "__init__", "__ior__", "__iter__", "__le__",
      "__len__", "__lt__", "__ne__", "__new__", "__or__", "__repr__", "__reversed__", "__ror__",
      "__setitem__", "__sizeof__", "clear", "copy", "fromkeys", "get", "items", "keys", "pop",
      "popitem", "setdefault", "update", "values"] ++
    data ["__doc__", "__hash__"]
  | .set =>
    plain ["__and__", "__class_getitem__", "__contains__", "__eq__", "__ge__",
      "__getattribute__", "__gt__", "__iand__", "__init__", "__ior__", "__isub__", "__iter__",
      "__ixor__", "__le__", "__len__", "__lt__", "__ne__", "__new__", "__or__", "__rand__",
      "__reduce__", "__repr__", "__ror__", "__rsub__", "__rxor__", "__sizeof__", "__sub__",
      "__xor__", "add", "clear", "copy", "difference", "difference_update", "discard",
      "intersection", "intersection_update", "isdisjoint", "issubset", "issuperset", "pop",
      "remove", "symmetric_difference", "symmetric_difference_update", "union", "update"] ++
    data ["__doc__", "__hash__"]
  | .frozenset =>
    plain ["__and__", "__class_getitem__", "__contains__", "__eq__", "__ge__",
      "__getattribute__", "__gt__", "__hash__", "__iter__", "__le__", "__len__", "__lt__",
      "__ne__", "__new__", "__or__", "__rand__", "__reduce__", "__repr__", "__ror__", "__rsub__",
      "__rxor__", "__sizeof__", "__sub__", "__xor__", "copy", "difference", "intersection",
      "isdisjoint", "issubset", "issuperset", "symmetric_difference", "union"] ++
    data ["__doc__"]
  | .mappingProxy =>
    plain ["__class_getitem__", "__contains__", "__eq__", "__ge__",
      "__getattribute__", "__getitem__", "__gt__", "__ior__", "__iter__", "__le__", "__len__",
      "__lt__", "__ne__", "__new__", "__or__", "__repr__", "__reversed__", "__ror__", "__str__",
      "copy", "get", "items", "keys", "values"] ++
    data ["__doc__", "__hash__"]
  | .dictKeys =>
    plain ["__and__", "__contains__", "__eq__", "__ge__", "__getattribute__",
      "__gt__", "__iter__", "__le__", "__len__", "__lt__", "__ne__", "__or__", "__rand__",
      "__repr__", "__reversed__", "__ror__", "__rsub__", "__rxor__", "__sub__", "__xor__",
      "isdisjoint"] ++
    data ["__doc__", "__hash__", "mapping"]
  | .orderedDict =>
    plain ["__delitem__", "__eq__", "__ge__", "__gt__", "__init__", "__ior__",
      "__iter__", "__le__", "__lt__", "__ne__", "__or__", "__reduce__", "__repr__",
      "__reversed__", "__ror__", "__setitem__", "__sizeof__", "clear", "copy", "fromkeys",
      "items", "keys", "move_to_end", "pop", "popitem", "setdefault", "update", "values"] ++
    data ["__dict__", "__doc__", "__hash__"]
  | .defaultDict =>
    plain ["__class_getitem__", "__copy__", "__getattribute__", "__init__",
      "__missing__", "__or__", "__reduce__", "__repr__", "__ror__", "copy"] ++
    data ["__doc__", "default_factory"]
  | .deque =>
    plain ["__add__", "__class_getitem__", "__contains__", "__copy__", "__delitem__",
      "__eq__", "__ge__", "__getattribute__", "__getitem__", "__gt__", "__iadd__", "__imul__",
      "__init__", "__iter__", "__le__", "__len__", "__lt__", "__mul__", "__ne__", "__new__",
      "__reduce__", "__repr__", "__reversed__", "__rmul__", "__setitem__", "__sizeof__",
      "append", "appendleft", "clear", "copy", "count", "extend", "extendleft", "index",
      "insert", "pop", "popleft", "remove", "reverse", "rotate"] ++
    data ["__doc__", "__hash__", "maxlen"]
  | .decimal =>
    plain ["__abs__", "__add__", "__bool__", "__ceil__", "__complex__", "__copy__",
      "__deepcopy__", "__divmod__", "__eq__", "__float__", "__floor__", "__floordiv__",
      "__format__", "__ge__", "__getattribute__", "__gt__", "__hash__", "__int__", "__le__",
      "__lt__", "__mod__", "__mul__", "__ne__", "__neg__", "__new__", "__pos__", "__pow__",
      "__radd__", "__rdivmod__", "__reduce__", "__repr__", "__rfloordiv__", "__rmod__",
      "__rmul__", "__round__", "__rpow__", "__rsub__", "__rtruediv__", "__sizeof__", "__str__",
      "__sub__", "__truediv__", "__trunc__", "adjusted", "as_integer_ratio", "as_tuple",
      "canonical", "compare", "compare_signal", "compare_total", "compare_total_mag",
      "conjugate", "copy_abs", "copy_negate", "copy_sign", "exp", "fma", "from_float",
      "is_canonical", "is_finite", "is_infinite", "is_nan", "is_normal", "is_qnan", "is_signed",
      "is_snan", "is_subnormal", "is_zero", "ln", "log10", "logb", "logical_and",
      "logical_invert", "logical_or", "logical_xor", "max", "max_mag", "min", "min_mag",
      "next_minus", "next_plus", "next_toward", "normalize", "number_class", "quantize", "radix",
      "remainder_near", "rotate", "same_quantum", "scaleb", "shift", "sqrt", "to_eng_string",
      "to_integral", "to_integral_exact", "to_integral_value"] ++
    data ["__doc__", "__module__", "imag", "real"]
  | .numeric =>
    data ["__abstractmethods__", "__doc__", "__hash__", "__module__", "__slots__",
      "_abc_impl"]
  | .complexNumeric =>
    coded .receiver ["__bool__", "__rsub__", "__sub__"] ++
    required ["__abs__", "__add__", "__complex__", "__eq__", "__mul__", "__neg__",
      "__pos__", "__pow__", "__radd__", "__rmul__", "__rpow__", "__rtruediv__", "__truediv__",
      "conjugate"] ++
    data ["__abstractmethods__", "__doc__", "__hash__", "__module__", "__slots__",
      "_abc_impl", "imag", "real"]
  | .realNumeric =>
    coded .receiver ["__complex__", "__divmod__", "__rdivmod__", "conjugate"] ++
    required ["__ceil__", "__float__", "__floor__", "__floordiv__", "__le__", "__lt__",
      "__mod__", "__rfloordiv__", "__rmod__", "__round__", "__trunc__"] ++
    data ["__abstractmethods__", "__doc__", "__module__", "__slots__", "_abc_impl",
      "imag", "real"]
  | .rational =>
    coded .receiver ["__float__"] ++
    data ["__abstractmethods__", "__doc__", "__module__", "__slots__", "_abc_impl",
      "denominator", "numerator"]
  | .fraction =>
    coded .receiver ["__abs__", "__add__", "__bool__", "__ceil__", "__copy__", "__deepcopy__",
      "__divmod__", "__eq__", "__floor__", "__floordiv__", "__ge__", "__gt__", "__hash__",
      "__int__", "__le__", "__lt__", "__mod__", "__mul__", "__neg__", "__pos__", "__pow__",
      "__radd__", "__rdivmod__", "__reduce__", "__repr__", "__rfloordiv__", "__rmod__",
      "__rmul__", "__round__", "__rpow__", "__rsub__", "__rtruediv__", "__str__", "__sub__",
      "__truediv__", "__trunc__", "_add", "_div", "_divmod", "_floordiv", "_mod", "_mul",
      "_operator_fallbacks", "_richcmp", "_sub", "as_integer_ratio", "limit_denominator"] ++
    coded .owner ["from_decimal", "from_float"] ++
    coded .nothing ["__new__"] ++
    data ["__abstractmethods__", "__doc__", "__module__", "__slots__", "_abc_impl",
      "_denominator", "_numerator", "denominator", "numerator"]
  | .function =>
    plain ["__call__", "__get__", "__new__", "__repr__"] ++
    data ["__annotations__", "__builtins__", "__closure__", "__code__",
      "__defaults__", "__dict__", "__doc__", "__globals__", "__kwdefaults__", "__module__",
      "__name__", "__qualname__"]
  | .builtinFunction =>
    plain ["__call__", "__eq__", "__ge__", "__getattribute__", "__gt__", "__hash__",
      "__le__", "__lt__", "__ne__", "__reduce__", "__repr__"] ++
    data ["__doc__", "__module__", "__name__", "__qualname__", "__self__",
      "__text_signature__"]
  | .boundMethod =>
    plain ["__call__", "__delattr__", "__eq__", "__ge__", "__getattribute__",
      "__gt__", "__hash__", "__le__", "__lt__", "__ne__", "__new__", "__reduce__", "__repr__",
      "__setattr__"] ++
    data ["__doc__", "__func__", "__self__"]
  | .methodDescriptor =>
    plain ["__call__", "__get__", "__getattribute__", "__reduce__", "__repr__"] ++
    data ["__doc__", "__name__", "__objclass__", "__qualname__",
      "__text_signature__"]
  | .wrapperDescriptor =>
    plain ["__call__", "__get__", "__getattribute__", "__reduce__", "__repr__"] ++
    data ["__doc__", "__name__", "__objclass__", "__qualname__",
      "__text_signature__"]
  | .partialCall =>
    plain ["__call__", "__class_getitem__", "__delattr__", "__getattribute__",
      "__new__", "__reduce__", "__repr__", "__setattr__", "__setstate__"] ++
    data ["__dict__", "__doc__", "__module__", "__vectorcalloffset__", "args",
      "func", "keywords"]
  | .property =>
    plain ["__delete__", "__get__", "__getattribute__", "__init__", "__new__",
      "__set__", "__set_name__", "deleter", "getter", "setter"] ++
    data ["__doc__", "__isabstractmethod__", "fdel", "fget", "fset"]
  | .classMethod =>
    plain ["__get__", "__init__", "__new__", "__repr__"] ++
    data ["__dict__", "__doc__", "__func__", "__isabstractmethod__", "__wrapped__"]
  | .staticMethod =>
    plain ["__call__", "__get__", "__init__", "__new__", "__repr__"] ++
    data ["__dict__", "__doc__", "__func__", "__isabstractmethod__", "__wrapped__"]
  | .slotMember =>
    plain ["__delete__", "__get__", "__getattribute__", "__reduce__", "__repr__",
      "__set__"] ++
    data ["__doc__", "__name__", "__objclass__", "__qualname__"]
  | .ellipsis =>
    plain ["__getattribute__", "__new__", "__reduce__", "__repr__"] ++
    data ["__doc__"]
  | .notImplemented =>
    plain ["__bool__", "__new__", "__reduce__", "__repr__"] ++
    data ["__doc__"]
  | .weakReference =>
    plain ["__call__", "__class_getitem__", "__eq__", "__ge__", "__gt__", "__hash__",
      "__init__", "__le__", "__lt__", "__ne__", "__new__", "__repr__"] ++
    data ["__callback__", "__doc__"]
  | .ioBase =>
    plain ["__del__", "__enter__", "__exit__", "__iter__", "__new__", "__next__",
      "_checkClosed", "_checkReadable", "_checkSeekable", "_checkWritable", "close", "fileno",
      "flush", "isatty", "readable", "readline", "readlines", "seek", "seekable", "tell",
      "truncate", "writable", "writelines"] ++
    data ["__dict__", "__doc__", "closed"]
  | .textIOBase =>
    plain ["detach", "read", "readline", "write"] ++
    data ["__doc__", "encoding", "errors", "newlines"]
  | .stringIO =>
    plain ["__getstate__", "__init__", "__new__", "__next__", "__setstate__", "close",
      "getvalue", "read", "readable", "readline", "seek", "seekable", "tell", "truncate",
      "writable", "write"] ++
    data ["__doc__", "closed", "line_buffering", "newlines"]
  | .host .baseException =>
    plain ["__delattr__", "__getattribute__", "__init__", "__new__", "__reduce__",
      "__repr__", "__setattr__", "__setstate__", "__str__", "add_note", "with_traceback"] ++
    data ["__cause__", "__context__", "__dict__", "__doc__", "__suppress_context__",
      "__traceback__", "args"]
  | .host .exception =>
    plain ["__init__", "__new__"] ++
    data ["__doc__"]
  | .host .arithmeticError =>
    plain ["__init__", "__new__"] ++
    data ["__doc__"]
  | .host .zeroDivisionError =>
    plain ["__init__", "__new__"] ++
    data ["__doc__"]
  | .host .overflowError =>
    plain ["__init__", "__new__"] ++
    data ["__doc__"]
  | .host .floatingPointError =>
    plain ["__init__", "__new__"] ++
    data ["__doc__"]
  | .host .assertionError =>
    plain ["__init__", "__new__"] ++
    data ["__doc__"]
  | .host .attributeError =>
    plain ["__init__", "__str__"] ++
    data ["__doc__", "name", "obj"]
  | .host .bufferError =>
    plain ["__init__", "__new__"] ++
    data ["__doc__"]
  | .host .eofError =>
    plain ["__init__", "__new__"] ++
    data ["__doc__"]
  | .host .importError =>
    plain ["__init__", "__reduce__", "__str__"] ++
    data ["__doc__", "msg", "name", "path"]
  | .host .moduleNotFoundError =>
    plain ["__init__"] ++
    data ["__doc__"]
  | .host .lookupError =>
    plain ["__init__", "__new__"] ++
    data ["__doc__"]
  | .host .indexError =>
    plain ["__init__", "__new__"] ++
    data ["__doc__"]
  | .host .keyError =>
    plain ["__init__", "__str__"] ++
    data ["__doc__"]
  | .host .memoryError =>
    plain ["__init__", "__new__"] ++
    data ["__doc__"]
  | .host .nameError =>
    plain ["__init__", "__str__"] ++
    data ["__doc__", "name"]
  | .host .unboundLocalError =>
    plain ["__init__"] ++
    data ["__doc__"]
  | .host .osError =>
    plain ["__init__", "__new__", "__reduce__", "__str__"] ++
    data ["__doc__", "characters_written", "errno", "filename", "filename2",
      "strerror"]
  | .host .fileExistsError =>
    plain ["__init__"] ++
    data ["__doc__"]
  | .host .fileNotFoundError =>
    plain ["__init__"] ++
    data ["__doc__"]
  | .host .isADirectoryError =>
    plain ["__init__"] ++
    data ["__doc__"]
  | .host .notADirectoryError =>
    plain ["__init__"] ++
    data ["__doc__"]
  | .host .permissionError =>
    plain ["__init__"] ++
    data ["__doc__"]
  | .host .timeoutError =>
    plain ["__init__"] ++
    data ["__doc__"]
  | .host .connectionError =>
    plain ["__init__"] ++
    data ["__doc__"]
  | .host .runtimeError =>
    plain ["__init__", "__new__"] ++
    data ["__doc__"]
  | .host .notImplementedError =>
    plain ["__init__", "__new__"] ++
    data ["__doc__"]
  | .host .recursionError =>
    plain ["__init__", "__new__"] ++
    data ["__doc__"]
  | .host .stopIteration =>
    plain ["__init__"] ++
    data ["__doc__", "value"]
  | .host .stopAsyncIteration =>
    plain ["__init__", "__new__"] ++
    data ["__doc__"]
  | .host .syntaxError =>
    plain ["__init__", "__str__"] ++
    data ["__doc__", "end_lineno", "end_offset", "filename", "lineno", "msg",
      "offset", "print_file_and_line", "text"]
  | .host .indentationError =>
    plain ["__init__"] ++
    data ["__doc__"]
  | .host .systemError =>
    plain ["__init__", "__new__"] ++
    data ["__doc__"]
  | .host .typeError =>
    plain ["__init__", "__new__"] ++
    data ["__doc__"]
  | .host .valueError =>
    plain ["__init__", "__new__"] ++
    data ["__doc__"]
  | .host .unicodeError =>
    plain ["__init__", "__new__"] ++
    data ["__doc__"]
  | .host .unicodeDecodeError =>
    plain ["__init__", "__new__", "__str__"] ++
    data ["__doc__", "encoding", "end", "object", "reason", "start"]
  | .host .unicodeEncodeError =>
    plain ["__init__", "__new__", "__str__"] ++
    data ["__doc__", "encoding", "end", "object", "reason", "start"]
  | .host .keyboardInterrupt =>
    plain ["__init__", "__new__"] ++
    data ["__doc__"]
  | .host .systemExit =>
    plain ["__init__"] ++
    data ["__doc__", "code"]
  | .host .generatorExit =>
    plain ["__init__", "__new__"] ++
    data ["__doc__"]
  | .host .invalidOperation =>
    data ["__doc__", "__module__", "__weakref__"]
  | .host .representerError =>
    data ["__doc__", "__module__", "__weakref__"]
  | .error .base =>
    coded .receiver ["__init__", "__str__", "cause", "msg", "toStr", "traceToStr"] ++
    coded .owner ["make"] ++
    data ["__doc__", "__module__", "__weakref__"]
  | .error .parse =>
    data ["__doc__", "__module__"]
  | .error .argument =>
    data ["__doc__", "__module__"]
  | .error .unsupported =>
    data ["__doc__", "__module__"]
  | .error .hazard =>
    data ["__doc__", "__module__"]
  | .error .unknownType =>
    data ["__doc__", "__module__"]
  | .error .unknownSlot =>
    data ["__doc__", "__module__"]
  | .error .io =>
    coded .nothing ["make"] ++
    data ["__doc__", "__module__"]
  | .digest =>
    coded .receiver ["__init__", "algorithm", "digest", "digestSize", "format", "update"] ++
    coded .nothing ["_checkFormat", "checksum"] ++
    data ["_ALGO_MAP", "_FORMATS", "__doc__", "__module__"]
  | .env =>
    coded .receiver ["__init__", "config", "idHash", "props", "reload", "vars", "workDir"] ++
    coded .nothing ["_parseProps", "cur"] ++
    data ["_CONFIG_URI", "_VAR_PREFIX", "__doc__", "__module__", "_instance"]
  | .logLevel =>
    coded .receiver ["__init__", "name", "ordinal", "pyLevel", "toStr"] ++
    coded .nothing ["fromStr", "vals"] ++
    data ["__doc__", "__module__", "_debug", "_err", "_info", "_levels", "_silent",
      "_warn"]
  | .logRecord =>
    coded .receiver ["__init__", "level", "logName", "msg", "toStr"] ++
    data ["__doc__", "__module__"]
  | .log =>
    coded .receiver ["__init__", "_log", "debug", "err", "info", "isEnabled", "level", "log",
      "name", "toStr", "warn"] ++
    coded .nothing ["_configLevel", "_isValidName", "addHandler", "get", "handlers",
      "removeHandler"] ++
    data ["__doc__", "__module__", "_handlers", "_logs"]
  | .handle =>
    coded .receiver ["ISA", "__init__", "_superTarget", "as_json", "as_perl", "as_yaml", "can",
      "checksum", "class_", "dump", "equals", "hash", "id", "is_a", "is_equal", "is_tainted",
      "linear_isa", "methods", "reftype", "subject", "super", "symbol_table", "taint", "toStr",
      "type_", "untaint"] ++
    coded .nothing ["_demangle", "_dumpIndent", "_mangle", "_manglePrefix"] ++
    data ["_FORMATS", "__doc__", "__module__"]
  | .instanceHandle =>
    coded .receiver ["_superTarget", "type_"] ++
    data ["__doc__", "__module__"]
  | .classHandle =>
    coded .receiver ["_superTarget", "class_", "type_"] ++
    data ["__doc__", "__module__"]
  | .method =>
    coded .receiver ["__init__", "call", "callOn", "code", "func", "isMethod"] ++
    coded .nothing ["_code", "isMethodEntry", "make"] ++
    data ["__doc__", "__module__"]
  | .obj =>
    coded .receiver ["__eq__", "__hash__", "__repr__", "__str__", "equals", "hash", "toStr",
      "typeof"] ++
    data ["__dict__", "__doc__", "__module__", "__weakref__"]
  | .objUtil =>
    coded .nothing ["_equal", "_isValueObj", "_mapsEqual", "_seqsEqual", "_slotNames",
      "_toNum", "_toStr", "fields", "isEqual", "isOverloaded", "isPlain", "looksLikeNumber",
      "overloadedVal", "reftype", "scalarsEqual"] ++
    data ["_INT_RE", "_NUMBER_RE", "_PLAIN", "__dict__", "__doc__", "__module__",
      "__weakref__"]
  | .taintedStr =>
    data ["__doc__", "__module__", "__slots__"]
  | .scalar =>
    coded .receiver ["__bool__", "__float__", "__init__", "__int__", "__str__", "set", "toStr",
      "val"] ++
    coded .nothing ["make"] ++
    data ["__doc__", "__module__"]
  | .slotFlags =>
    data ["Abstract", "ClassLevel", "Native", "Override", "Private", "Public",
      "Static", "__dict__", "__doc__", "__module__", "__weakref__"]
  | .slot =>
    coded .receiver ["__init__", "__repr__", "flags_", "isAbstract", "isClassLevel", "isMethod",
      "isNative", "isOverride", "isPrivate", "isPublic", "isStatic", "name", "parent", "qname",
      "toStr"] ++
    coded .nothing ["find"] ++
    data ["__doc__", "__module__"]
  | .taint =>
    coded .nothing ["_log", "isTainted", "taint", "untaint"] ++
    data ["__dict__", "__doc__", "__module__", "__weakref__"]
  | .descriptor =>
    coded .receiver ["__init__", "_clsOrErr", "declared", "fits", "inheritance",
      "isNumOverloaded", "isRoot", "isStrOverloaded", "isa", "method", "methods", "name",
      "overloads", "pyClass", "qname", "symbols", "toStr"] ++
    coded .nothing ["_resolve", "find", "fromClass", "of", "qnameOf"] ++
    data ["_NUM_HOOKS", "_ROOT", "_STR_HOOKS", "__doc__", "__module__", "_byClass",
      "_cache"]
  | .jsonEncoder =>
    coded .nothing ["encode"] ++
    data ["__dict__", "__doc__", "__module__", "__weakref__"]
  | .perlEncoder =>
    coded .receiver ["__init__", "_elemPath", "_keyLiteral", "_sortedMembers", "_writeAt",
      "_writeRef", "w", "wIndent", "wNewline", "wStrLiteral", "writeArray", "writeHash",
      "writeObj"] ++
    coded .nothing ["_quote", "encode"] ++
    data ["_BARE_INT_DIGITS", "_ROOT", "_UNBLESSED", "__dict__", "__doc__",
      "__module__", "__weakref__"]
  | .plainEncoder =>
    coded .receiver ["__init__", "_key", "_number", "_refToData", "toData"] ++
    coded .nothing ["encode"] ++
    data ["__dict__", "__doc__", "__module__", "__weakref__"]
  | .yamlEncoder =>
    coded .nothing ["encode"] ++
    data ["__dict__", "__doc__", "__module__", "__weakref__"]

end Native

end Introspect
