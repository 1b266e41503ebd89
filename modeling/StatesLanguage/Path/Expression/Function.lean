import StatesLanguage.Path.Operand.Operator
import StatesLanguage.Path.Operand.Access

/-!
# Functions of filter expressions

The names that filter expressions know without being told, and what the functions among them do.
Every name stands for something that counts as true and is equal only to itself.
-/

namespace StatesLanguage.Path.Expression

def functionNames : List String := [
  "abs", "aiter", "all", "anext", "any", "ascii", "bin", "bool", "breakpoint", "bytearray", "bytes",
  "callable", "chr", "classmethod", "compile", "complex", "copyright", "credits", "delattr", "dict",
  "dir", "divmod", "enumerate", "eval", "exec", "exit", "filter", "float", "format", "frozenset",
  "getattr", "globals", "hasattr", "hash", "help", "hex", "id", "input", "int", "isinstance",
  "issubclass", "iter", "len", "license", "list", "locals", "map", "max", "memoryview", "min", "next",
  "object", "oct", "open", "ord", "pow", "print", "property", "quit", "range", "repr", "reversed",
  "round", "set", "setattr", "slice", "sorted", "staticmethod", "str", "sum", "super", "tuple",
  "type", "vars", "zip", "__build_class__", "__import__"]

def errorNames : List String := [
  "ArithmeticError", "AssertionError", "AttributeError", "BaseException", "BaseExceptionGroup",
  "BlockingIOError", "BrokenPipeError", "BufferError", "BytesWarning", "ChildProcessError",
  "ConnectionAbortedError", "ConnectionError", "ConnectionRefusedError", "ConnectionResetError",
  "DeprecationWarning", "EOFError", "EncodingWarning", "EnvironmentError", "Exception",
  "ExceptionGroup", "FileExistsError", "FileNotFoundError", "FloatingPointError", "FutureWarning",
  "GeneratorExit", "IOError", "ImportError", "ImportWarning", "IndentationError", "IndexError",
  "InterruptedError", "IsADirectoryError", "KeyError", "KeyboardInterrupt", "LookupError",
  "MemoryError", "ModuleNotFoundError", "NameError", "NotADirectoryError", "NotImplementedError",
  "OSError", "OverflowError", "PendingDeprecationWarning", "PermissionError", "ProcessLookupError",
  "RecursionError", "ReferenceError", "ResourceWarning", "RuntimeError", "RuntimeWarning",
  "StopAsyncIteration", "StopIteration", "SyntaxError", "SyntaxWarning", "SystemError", "SystemExit",
  "TabError", "TimeoutError", "TypeError", "UnboundLocalError", "UnicodeDecodeError",
  "UnicodeEncodeError", "UnicodeError", "UnicodeTranslateError", "UnicodeWarning", "UserWarning",
  "ValueError", "Warning", "ZeroDivisionError", "NotImplemented"]

def libraryNames : List String := ["copy", "json", "jsonpath", "re", "sys", "uuid"]

/-- What a name stands for wherever an expression is evaluated. -/
def known? (name : String) : Option Operand :=
  if name = "Ellipsis" then some .ellipsis
  else if name = "__debug__" then some (.bool true)
  else if functionNames.contains name || errorNames.contains name || libraryNames.contains name then
    some (.named name)
  else none

def kindOf : Operand → String
  | .null => "NoneType"
  | .bool _ => "bool"
  | .int _ => "int"
  | .float _ => "float"
  | .imaginary _ => "complex"
  | .str _ => "str"
  | .bytes _ => "bytes"
  | .list _ => "list"
  | .tuple _ => "tuple"
  | .set _ => "set"
  | .table _ => "dict"
  | .slice _ _ _ => "slice"
  | .named _ => "type"
  | .ellipsis => "ellipsis"

/-- Whether an operand is of a kind; a boolean is an integer too, and everything is an object. -/
def isOfKind (o : Operand) (kind : String) : Bool :=
  kindOf o == kind || kind == "object" || (kind == "int" && kindOf o == "bool")

def kinds? : Operand → Option (List String)
  | .named kind => some [kind]
  | .tuple items => items.mapM fun
    | .named kind => some kind
    | _ => none
  | _ => none

/-- The first operand that none of the others stands in an order to. -/
def best? (test : Ordering → Bool) : List Operand → Option Operand
  | [] => none
  | first :: rest => rest.foldlM (fun best o => do
      return if ← Operand.ordered test o best then o else best) first

/-- The arguments of a choice among several, which may be given as one. -/
def candidates? : List Operand → Option (List Operand)
  | [o] => o.items?
  | args => some args

def absolute : Operand → Option Operand
  | .imaginary x => some (.float (if x < 0.0 then -x else x))
  | o => o.number?.map fun
    | .int n => .int n.natAbs
    | .float x => .float (if Binary.isNegative x then -x else x)

def toInteger : Operand → Option Operand
  | .str s => (Decimal.readInt? s.toList).map .int
  | o => do
    match ← o.number? with
    | .int n => return .int n
    | .float x => return .int (← Binary.truncate? x)

def toFloating : Operand → Option Operand
  | .str s => (Decimal.readFloat? s.toList).map .float
  | o => do return .float (← (← o.number?).toFloat.toOption)

/-- The value of a function for its arguments. Functions that would reach outside the data have
none. -/
def callNamed? (name : String) (args : List Operand) : Option Operand :=
  match name, args with
  | "len", [o] => o.size?.map fun (n : Nat) => .int n
  | "abs", [o] => absolute o
  | "bool", [] => some (.bool false)
  | "bool", [o] => some (.bool o.truthy)
  | "int", [] => some (.int 0)
  | "int", [o] => toInteger o
  | "float", [] => some (.float 0.0)
  | "float", [o] => toFloating o
  | "str", [] => some (.str "")
  | "str", [o] => o.text?.map .str
  | "repr", [o] => o.inner?.map .str
  | "list", [] => some (.list [])
  | "list", [o] => o.items?.map .list
  | "tuple", [] => some (.tuple [])
  | "tuple", [o] => o.items?.map .tuple
  | "set", [] => some (.set [])
  | "set", [o] => (o.items?.bind Operand.distinct).map .set
  | "all", [o] => o.items?.map fun items => .bool (items.all Operand.truthy)
  | "any", [o] => o.items?.map fun items => .bool (items.any Operand.truthy)
  | "sum", [o] => do (← o.items?).foldlM Operand.join (.int 0)
  | "max", args => do best? (· == .gt) (← candidates? args)
  | "min", args => do best? (· == .lt) (← candidates? args)
  | "type", [o] => some (.named (kindOf o))
  | "isinstance", [o, kind] => (kinds? kind).map fun kinds => .bool (kinds.any (isOfKind o))
  | _, _ => none

end StatesLanguage.Path.Expression
