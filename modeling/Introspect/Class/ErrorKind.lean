/-! Kinds of errors: those of this library and those of the host runtime. -/
namespace Introspect

/-- The error classes of the library; each but `base` is a direct child of `base`. -/
inductive ErrorKind where
  | base | parse | argument | unsupported | hazard | unknownType | unknownSlot | io
deriving DecidableEq

namespace ErrorKind

def name : ErrorKind → String
  | .base => "Err"
  | .parse => "ParseErr"
  | .argument => "ArgErr"
  | .unsupported => "UnsupportedErr"
  | .hazard => "UnsafeErr"
  | .unknownType => "UnknownTypeErr"
  | .unknownSlot => "UnknownSlotErr"
  | .io => "IOErr"

def all : List ErrorKind :=
  [.base, .parse, .argument, .unsupported, .hazard, .unknownType, .unknownSlot, .io]

end ErrorKind

/-- The error classes of the host runtime. -/
inductive HostKind where
  | baseException | exception | arithmeticError | zeroDivisionError | overflowError
  | floatingPointError | assertionError | attributeError | bufferError | eofError | importError
  | moduleNotFoundError | lookupError | indexError | keyError | memoryError | nameError
  | unboundLocalError | osError | fileExistsError | fileNotFoundError | isADirectoryError
  | notADirectoryError | permissionError | timeoutError | connectionError | runtimeError
  | notImplementedError | recursionError | stopIteration | stopAsyncIteration | syntaxError
  | indentationError | systemError | typeError | valueError | unicodeError | unicodeDecodeError
  | unicodeEncodeError | keyboardInterrupt | systemExit | generatorExit | invalidOperation
  | representerError
deriving DecidableEq

namespace HostKind

def name : HostKind → String
  | .baseException => "BaseException"
  | .exception => "Exception"
  | .arithmeticError => "ArithmeticError"
  | .zeroDivisionError => "ZeroDivisionError"
  | .overflowError => "OverflowError"
  | .floatingPointError => "FloatingPointError"
  | .assertionError => "AssertionError"
  | .attributeError => "AttributeError"
  | .bufferError => "BufferError"
  | .eofError => "EOFError"
  | .importError => "ImportError"
  | .moduleNotFoundError => "ModuleNotFoundError"
  | .lookupError => "LookupError"
  | .indexError => "IndexError"
  | .keyError => "KeyError"
  | .memoryError => "MemoryError"
  | .nameError => "NameError"
  | .unboundLocalError => "UnboundLocalError"
  | .osError => "OSError"
  | .fileExistsError => "FileExistsError"
  | .fileNotFoundError => "FileNotFoundError"
  | .isADirectoryError => "IsADirectoryError"
  | .notADirectoryError => "NotADirectoryError"
  | .permissionError => "PermissionError"
  | .timeoutError => "TimeoutError"
  | .connectionError => "ConnectionError"
  | .runtimeError => "RuntimeError"
  | .notImplementedError => "NotImplementedError"
  | .recursionError => "RecursionError"
  | .stopIteration => "StopIteration"
  | .stopAsyncIteration => "StopAsyncIteration"
  | .syntaxError => "SyntaxError"
  | .indentationError => "IndentationError"
  | .systemError => "SystemError"
  | .typeError => "TypeError"
  | .valueError => "ValueError"
  | .unicodeError => "UnicodeError"
  | .unicodeDecodeError => "UnicodeDecodeError"
  | .unicodeEncodeError => "UnicodeEncodeError"
  | .keyboardInterrupt => "KeyboardInterrupt"
  | .systemExit => "SystemExit"
  | .generatorExit => "GeneratorExit"
  | .invalidOperation => "InvalidOperation"
  | .representerError => "RepresenterError"

/-- The direct parent; none for the root of all errors. -/
def parent? : HostKind → Option HostKind
  | .baseException => none
  | .invalidOperation => some .arithmeticError
  | .exception | .keyboardInterrupt | .systemExit | .generatorExit => some .baseException
  | .zeroDivisionError | .overflowError | .floatingPointError => some .arithmeticError
  | .moduleNotFoundError => some .importError
  | .indexError | .keyError => some .lookupError
  | .unboundLocalError => some .nameError
  | .fileExistsError | .fileNotFoundError | .isADirectoryError => some .osError
  | .notADirectoryError | .permissionError | .timeoutError => some .osError
  | .connectionError => some .osError
  | .notImplementedError | .recursionError => some .runtimeError
  | .indentationError => some .syntaxError
  | .unicodeError => some .valueError
  | .unicodeDecodeError | .unicodeEncodeError => some .unicodeError
  | _ => some .exception

/-- Those that are known by their name alone. -/
def all : List HostKind :=
  [.baseException, .exception, .arithmeticError, .zeroDivisionError, .overflowError,
   .floatingPointError, .assertionError, .attributeError, .bufferError, .eofError, .importError,
   .moduleNotFoundError, .lookupError, .indexError, .keyError, .memoryError, .nameError,
   .unboundLocalError, .osError, .fileExistsError, .fileNotFoundError, .isADirectoryError,
   .notADirectoryError, .permissionError, .timeoutError, .connectionError, .runtimeError,
   .notImplementedError, .recursionError, .stopIteration, .stopAsyncIteration, .syntaxError,
   .indentationError, .systemError, .typeError, .valueError, .unicodeError, .unicodeDecodeError,
   .unicodeEncodeError, .keyboardInterrupt, .systemExit, .generatorExit]

end HostKind

end Introspect
