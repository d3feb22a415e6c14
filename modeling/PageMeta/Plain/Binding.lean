import PageMeta.Object.Signature
import PageMeta.Plain.Fault
import PageMeta.Plain.Names

/-!
# Arguments of functions of plain data

How many arguments the functions of plain data take, and which of them go by name.  What they are
about is not counted.

* `Form` says what a function takes; `form` gives the form of each function.
* `Form.bind` places the arguments of a call.
-/

namespace PageMeta.Plain

/-- What a function takes. -/
inductive Form where
  /-- So many arguments by position: none or one. -/
  | simple (count : Nat)
  /-- Arguments by position, taken apart one by one. -/
  | unpacked (least most : Nat)
  /-- Arguments by position, counted first. -/
  | counted (least most : Nat)
  /-- The operands of an operator. -/
  | operands (count : Nat)
  /-- Parameters that take arguments by position or by name; so many of them must be given. -/
  | parameters (names : List String) (required : Nat)
  /-- Parameters that take arguments by name only. -/
  | byName (names : List String)
  /-- Arguments by position up to a number, and any by name. -/
  | free (most : Nat)
deriving Repr

/-- Functions that take no arguments. -/
def takingNone : List String :=
  ["clear", "copy", "reverse", "items", "keys", "values", "popitem", "lower", "upper",
   "capitalize", "casefold", "swapcase", "title", "isalnum", "isalpha", "isascii", "isdecimal",
   "isdigit", "isidentifier", "islower", "isnumeric", "isprintable", "isspace", "istitle",
   "isupper", "conjugate", "bit_count", "bit_length", "as_integer_ratio", "is_integer", "mro",
   "__subclasses__", "__reversed__", "__getnewargs__", "__sizeof__", "__ceil__", "__floor__",
   "__trunc__", "__dir__", "__getstate__", "__reduce__", "__bytes__"]

/-- Functions that take one argument. -/
def takingOne : List String :=
  ["append", "extend", "remove", "join", "partition", "rpartition", "removeprefix", "removesuffix",
   "zfill", "format_map", "isdisjoint", "fromhex", "__format__", "__class_getitem__",
   "__getformat__", "__instancecheck__", "__subclasscheck__", "__reduce_ex__"]

/-- Operators that take no operand beside the first. -/
def unaryOperators : List String :=
  ["__len__", "__iter__", "__neg__", "__pos__", "__abs__", "__bool__", "__int__", "__float__",
   "__index__", "__invert__", "__repr__", "__str__", "__hash__"]

/-- The form of a function that texts and bytes share. -/
def textForm? : String → Option Form
  | "count" | "find" | "index" | "rfind" | "rindex" | "startswith" | "endswith" =>
    some (.counted 1 3)
  | "split" | "rsplit" => some (.parameters ["sep", "maxsplit"] 0)
  | "splitlines" => some (.parameters ["keepends"] 0)
  | "expandtabs" => some (.parameters ["tabsize"] 0)
  | "encode" | "decode" => some (.parameters ["encoding", "errors"] 0)
  | "hex" => some (.parameters ["sep", "bytes_per_sep"] 0)
  | "center" | "ljust" | "rjust" => some (.unpacked 1 2)
  | "strip" | "lstrip" | "rstrip" => some (.unpacked 0 1)
  | "replace" => some (.unpacked 2 3)
  | "maketrans" => some (.unpacked 1 3)
  | "format" => some (.free 1000)
  | "translate" => some (.simple 1)
  | _ => none

/-- The form of a function that is special to a class. -/
def ownForm? (type name : String) : Option Form :=
  match type, name with
  | "str", _ | "bytes", _ => textForm? name
  | "dict", "get" | "dict", "pop" | "dict", "setdefault" | "dict", "fromkeys" =>
    some (.unpacked 1 2)
  | "dict", "update" => some (.free 1)
  | "dict", "__contains__" | "dict", "__getitem__" | "list", "__getitem__" => some (.simple 1)
  | "list", "count" | "tuple", "count" => some (.simple 1)
  | "list", "index" | "tuple", "index" => some (.unpacked 1 3)
  | "list", "insert" => some (.unpacked 2 2)
  | "list", "pop" => some (.unpacked 0 1)
  | "list", "sort" => some (.byName ["key", "reverse"])
  | "int", "to_bytes" => some (.parameters ["length", "byteorder", "signed"] 0)
  | "int", "from_bytes" => some (.parameters ["bytes", "byteorder", "signed"] 1)
  | "float", "hex" => some (.simple 0)
  | "int", "__round__" | "float", "__round__" => some (.unpacked 0 1)
  | _, "__init__" => some (.free 1)
  | _, _ => none

/-- The form of a function. -/
def form (type name : String) : Form :=
  match ownForm? type name with
  | some form => form
  | none =>
    if takingNone.contains name then .simple 0
    else if takingOne.contains name then .simple 1
    else if unaryOperators.contains name then .operands 0
    else if name = "__setitem__" ∨ name = "__setattr__" then .operands 2
    else if name.startsWith "__" then .operands 1
    else .free 1000

/-- The arguments of a function: one place for every parameter that it can have. -/
abbrev Places := List (Option Value)

/-- The arguments given by position, followed by open places up to a number. -/
def padded (count : Nat) (values : List Value) : Places :=
  values.map some ++ List.replicate (count - values.length) none

/-- Refuses named arguments. -/
def refuseNames (function : String) (args : Arguments) : Except Fault Unit :=
  if args.named.isEmpty then .ok () else .error (.noNames function)

/-- Checks the number of arguments between bounds, given how to complain. -/
def checkCount (complain : Count → Nat → Fault) (least most given : Nat) : Except Fault Unit :=
  if least ≤ given && given ≤ most then .ok ()
  else if least = most then .error (complain (.exactly least) given)
  else if given < least then .error (complain (.atLeast least) given)
  else .error (complain (.atMost most) given)

/-- Places the arguments of parameters that can go by name. -/
def placeParameters (function : String) (names : List String) (required : Nat)
    (args : Arguments) : Except Fault Places := do
  let given := args.positional.length + args.named.length
  checkCount (.argumentCount function) 0 names.length given
  let byPosition := padded names.length args.positional
  for p in args.named do
    if !names.contains p.1.text then throw (.unknownName function p.1.text)
  let filled ← ((names.zip byPosition).zipIdx).mapM fun (p, i) =>
    match p.2, (args.named.find? fun q => q.1.text == p.1) with
    | some _, some _ => .error (.givenTwice function p.1 (i + 1))
    | some v, none => .ok (some v)
    | none, some q => .ok (some q.2)
    | none, none =>
      if i < required then .error (.missingArgument function p.1 (i + 1)) else .ok none
  return filled

/-- Places the arguments of parameters that go by name only. -/
def placeNamed (function : String) (names : List String) (args : Arguments) :
    Except Fault Places := do
  if !args.positional.isEmpty then throw (.noPositions function)
  placeParameters function names 0 args

/-- Places the arguments of a call of a function of a class. -/
def Form.bind (form : Form) (type name : String) (args : Arguments) : Except Fault Places := do
  let values := args.positional
  let full := type ++ "." ++ name
  match form with
  | .simple count => do
    refuseNames full args
    checkCount (.argumentCount full) count count values.length
    return padded count values
  | .unpacked least most => do
    refuseNames full args
    checkCount (.unpackCount name) least most values.length
    return padded most values
  | .counted least most => do
    refuseNames full args
    checkCount (.argumentCount name) least most values.length
    return padded most values
  | .operands count => do
    refuseNames ("wrapper " ++ name) args
    if values.length = count then return padded count values
    else throw (.operandCount count values.length)
  | .parameters names required => placeParameters name names required args
  | .byName names => placeNamed name names args
  | .free most => do
    checkCount (.unpackCount (if name = "__init__" then type else name)) 0 most values.length
    return padded most values

end PageMeta.Plain
