import ScriptSandbox.Policy.Module

/-!
The tables that an operator of the sandbox can configure, with the values they have by default.
-/

namespace ScriptSandbox

/-- The configured tables. -/
structure PolicyTables where
  /-- Modules whose roots a script may import. -/
  allowedModules : List String :=
    ["numpy", "pandas", "math", "statistics", "datetime", "time", "decimal", "fractions", "random",
      "itertools", "functools", "collections", "operator", "re", "json", "typing", "heapq",
      "bisect", "copy", "string"]
  preloaded : List Preload :=
    [⟨"np", "numpy"⟩, ⟨"pd", "pandas"⟩, ⟨"math", "math"⟩, ⟨"statistics", "statistics"⟩,
      ⟨"datetime", "datetime"⟩]
  blockedCalls : List String :=
    ["eval", "exec", "compile", "__import__", "open", "input", "breakpoint", "globals", "locals",
      "vars", "getattr", "setattr", "delattr", "exit", "quit", "help", "os.*", "sys.*",
      "subprocess.*", "shutil.*", "socket.*", "ctypes.*", "importlib.*", "pickle.*", "marshal.*",
      "builtins.*", "pd.read_*", "pandas.read_*", "np.load", "np.loadtxt", "np.genfromtxt",
      "np.fromfile", "np.save", "np.savez", "np.savetxt", "numpy.load", "numpy.loadtxt",
      "numpy.genfromtxt", "numpy.fromfile", "numpy.save", "numpy.savez", "numpy.savetxt", "tofile",
      "to_pickle", "to_csv", "to_excel", "to_parquet", "to_hdf"]
  /-- Names of attributes that lead to the inside of the interpreter. -/
  blockedAttributes : List String :=
    ["__class__", "__base__", "__bases__", "__mro__", "__subclasses__", "__globals__",
      "__builtins__", "__code__", "__closure__", "__func__", "__self__", "__dict__",
      "__getattribute__", "__reduce__", "__reduce_ex__", "__loader__", "__spec__", "__import__",
      "f_globals", "f_locals", "f_back", "f_builtins", "gi_frame", "gi_code", "cr_frame",
      "tb_frame"]
  /-- Names that stand for modules which a script may not touch, whether called or not. -/
  blockedModuleNames : List String :=
    ["os", "_os", "posix", "nt", "sys", "_sys", "modules", "subprocess", "_subprocess",
      "_posixsubprocess", "shutil", "socket", "_socket", "builtins", "_builtins", "importlib",
      "_imp", "ctypes", "ctypeslib", "pickle", "marshal"]
  builtins : List String :=
    ["bool", "int", "float", "complex", "str", "bytes", "bytearray", "list", "tuple", "dict",
      "set", "frozenset", "slice", "object", "type", "bin", "hex", "oct", "chr", "ord", "ascii",
      "repr", "format", "hash", "abs", "divmod", "pow", "round", "sum", "min", "max", "all", "any",
      "len", "range", "enumerate", "zip", "map", "filter", "sorted", "reversed", "iter", "next",
      "isinstance", "issubclass", "callable", "super", "property", "staticmethod", "classmethod",
      "__build_class__", "print", "Exception", "ArithmeticError", "AssertionError",
      "AttributeError", "FloatingPointError", "ImportError", "IndexError", "KeyError",
      "LookupError", "MemoryError", "NameError", "NotImplementedError", "OverflowError",
      "RecursionError", "RuntimeError", "StopIteration", "TypeError", "ValueError",
      "ZeroDivisionError", "Warning", "RuntimeWarning", "UserWarning", "DeprecationWarning",
      "NotImplemented", "Ellipsis"]

/-- Builtins that no script gets, whatever is configured. -/
def neverExposed : List String :=
  ["__import__", "open", "eval", "exec", "compile", "input", "breakpoint", "globals", "locals",
    "vars", "getattr", "setattr", "delattr", "dir", "help", "exit", "quit", "memoryview",
    "__loader__", "__spec__"]

end ScriptSandbox
