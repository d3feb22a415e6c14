/-!
# Names of functions of plain data

Which functions the classes of plain data have beside those that every class has.  Some stand behind
an operator of the language, some are about the class itself; all others are called by name.
-/

namespace PageMeta.Plain

/-- The functions that every class has. -/
def rootFunctions : List String :=
  ["__delattr__", "__dir__", "__eq__", "__format__", "__ge__", "__getattribute__",
   "__getstate__", "__gt__", "__hash__", "__init__", "__init_subclass__", "__le__", "__lt__",
   "__ne__", "__new__", "__reduce__", "__reduce_ex__", "__repr__", "__setattr__", "__sizeof__",
   "__str__", "__subclasshook__"]

/-- The functions of texts and of bytes. -/
def textFunctions : List String :=
  ["capitalize", "center", "count", "endswith", "expandtabs", "find", "index", "isalnum",
   "isalpha", "isascii", "isdigit", "islower", "isspace", "istitle", "isupper", "join", "ljust",
   "lower", "lstrip", "maketrans", "partition", "removeprefix", "removesuffix", "replace",
   "rfind", "rindex", "rjust", "rpartition", "rsplit", "rstrip", "split", "splitlines",
   "startswith", "strip", "swapcase", "title", "translate", "upper", "zfill", "__add__",
   "__contains__", "__getitem__", "__getnewargs__", "__iter__", "__len__", "__mod__", "__mul__",
   "__rmod__", "__rmul__"]

/-- The functions of numbers. -/
def numberFunctions : List String :=
  ["__abs__", "__add__", "__bool__", "__ceil__", "__divmod__", "__float__", "__floor__",
   "__floordiv__", "__getnewargs__", "__int__", "__mod__", "__mul__", "__neg__", "__pos__",
   "__pow__", "__radd__", "__rdivmod__", "__rfloordiv__", "__rmod__", "__rmul__", "__round__",
   "__rpow__", "__rsub__", "__rtruediv__", "__sub__", "__truediv__", "__trunc__",
   "as_integer_ratio", "conjugate"]

/-- The operators on bits. -/
def bitFunctions : List String := ["__and__", "__or__", "__rand__", "__ror__", "__rxor__", "__xor__"]

/-- The functions of live views that are like sets. -/
def viewFunctions : List String :=
  ["isdisjoint", "__and__", "__contains__", "__iter__", "__len__", "__or__", "__rand__",
   "__reversed__", "__ror__", "__rsub__", "__rxor__", "__sub__", "__xor__"]

/-- The functions of a class of plain data. -/
def functions : String → List String
  | "dict" =>
    ["clear", "copy", "fromkeys", "get", "items", "keys", "pop", "popitem", "setdefault", "update",
     "values", "__class_getitem__", "__contains__", "__delitem__", "__getitem__", "__init__",
     "__ior__", "__iter__", "__len__", "__or__", "__reversed__", "__ror__", "__setitem__"]
  | "list" =>
    ["append", "clear", "copy", "count", "extend", "index", "insert", "pop", "remove", "reverse",
     "sort", "__add__", "__class_getitem__", "__contains__", "__delitem__", "__getitem__",
     "__iadd__", "__imul__", "__init__", "__iter__", "__len__", "__mul__", "__reversed__",
     "__rmul__", "__setitem__"]
  | "tuple" =>
    ["count", "index", "__add__", "__class_getitem__", "__contains__", "__getitem__",
     "__getnewargs__", "__iter__", "__len__", "__mul__", "__rmul__"]
  | "str" =>
    textFunctions ++ ["casefold", "encode", "format", "format_map", "isdecimal", "isidentifier",
      "isnumeric", "isprintable"]
  | "bytes" => textFunctions ++ ["decode", "fromhex", "hex", "__bytes__"]
  | "int" =>
    numberFunctions ++ bitFunctions ++
      ["bit_count", "bit_length", "from_bytes", "to_bytes", "__index__", "__invert__",
       "__lshift__", "__rlshift__", "__rrshift__", "__rshift__"]
  | "bool" => bitFunctions
  | "float" => numberFunctions ++ ["fromhex", "hex", "is_integer", "__getformat__"]
  | "NoneType" => ["__bool__"]
  | "dict_keys" | "dict_items" => viewFunctions
  | "dict_values" => ["__iter__", "__len__", "__reversed__"]
  | "type" =>
    ["mro", "__call__", "__instancecheck__", "__or__", "__prepare__", "__ror__",
     "__subclasscheck__", "__subclasses__"]
  | "BaseException" => ["add_note", "with_traceback", "__setstate__"]
  | "function" | "method_descriptor" | "wrapper_descriptor" => ["__call__", "__get__"]
  | "method" | "builtin_function_or_method" | "method-wrapper" => ["__call__"]
  | _ => []

/-- The functions of a class of plain data that are about the class itself. -/
def classFunctions : String → List String
  | "dict" => ["fromkeys", "__class_getitem__"]
  | "list" | "tuple" => ["__class_getitem__"]
  | "bytes" => ["fromhex", "maketrans"]
  | "str" => ["maketrans"]
  | "float" => ["fromhex", "__getformat__"]
  | "int" => ["from_bytes"]
  | "type" => ["__prepare__"]
  | "object" => ["__init_subclass__", "__new__", "__subclasshook__"]
  | _ => []

/-- Whether a function stands behind an operator or a function of the language rather than in a table
of functions that are called by name. -/
def isSlot (type name : String) : Bool :=
  let listed := match type with
    | "dict" => ["__contains__", "__getitem__"]
    | "list" => ["__getitem__"]
    | _ => []
  let byName :=
    ["__bytes__", "__ceil__", "__class_getitem__", "__dir__", "__floor__", "__format__",
     "__getformat__", "__getnewargs__", "__getstate__", "__init_subclass__", "__instancecheck__",
     "__new__", "__prepare__", "__reduce__", "__reduce_ex__", "__reversed__", "__round__",
     "__setstate__", "__sizeof__", "__subclasscheck__", "__subclasses__", "__subclasshook__",
     "__trunc__"]
  name.startsWith "__" && !listed.contains name && !byName.contains name

end PageMeta.Plain
