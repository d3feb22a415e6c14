import PageMeta.Numeric.Decimal
import PageMeta.Value.Basic
import PageMeta.Value.Entries

/-!
# Signatures

What arguments a function takes, and how the arguments of a call find their parameters.

Arguments given by position fill the parameters from the left; then the named ones are placed, in
the order given; then a surplus of positional arguments and, last, parameters left open are
complained about.  So a call with several faults reports the first in this order.

* `Signature.bind` places the arguments of a call.
* `ArityFault.text` words a fault.
-/

namespace PageMeta

/-- A parameter, with the value it takes when no argument is given. -/
structure Parameter where
  name : String
  default? : Option Value
deriving DecidableEq, Repr

/-- A parameter that must be given. -/
def Parameter.required (name : String) : Parameter := ⟨name, none⟩

/-- A parameter that may be left out. -/
def Parameter.optional (name : String) (value : Value) : Parameter := ⟨name, some value⟩

/-- What a function takes. -/
structure Signature where
  /-- The name used in complaints. -/
  function : String
  /-- Parameters that take arguments by position or by name. -/
  parameters : List Parameter
  /-- How many of the parameters, from the left, take no arguments by name. -/
  positionOnly : Nat := 0
  /-- Whether further positional arguments are taken. -/
  takesRest : Bool := false
  /-- Parameters that take arguments by name only; all of them may be left out. -/
  named : List Parameter := []
  /-- Whether further named arguments are taken. -/
  takesOptions : Bool := false
deriving DecidableEq, Repr

/-- Arguments of a call, by position and by name. -/
structure Arguments where
  positional : List Value := []
  named : Entries Name Value := []
deriving Repr

/-- Arguments by position only. -/
def Arguments.of (values : List Value) : Arguments := { positional := values }

/-- Arguments with one more in front. -/
def Arguments.after (args : Arguments) (first : Value) : Arguments :=
  { args with positional := first :: args.positional }

/-- Arguments that found their parameters. -/
structure Bound where
  /-- One value per parameter. -/
  values : List Value
  /-- Further positional arguments. -/
  rest : List Value
  /-- One value per parameter that goes by name only. -/
  named : List Value
  /-- Further named arguments, by the names as they were given. -/
  options : Entries Key Value
deriving Repr

/-- Why arguments do not fit a signature. -/
inductive ArityFault where
  | unexpectedName (name : String)
  | repeatedArgument (name : String)
  /-- Fewest and most positional arguments taken, how many were given, and how many arguments were
  given to parameters that go by name only. -/
  | tooMany (fewest most given named : Nat)
  | missing (names : List String)
deriving DecidableEq, Repr

namespace ArityFault

/-- Names in a row: `'a'`, `'a' and 'b'`, `'a', 'b', and 'c'`. -/
def enumerate (names : List String) : String :=
  let quoted := names.map fun n => "'" ++ n ++ "'"
  match quoted with
  | [] => ""
  | [a] => a
  | [a, b] => a ++ " and " ++ b
  | _ => String.intercalate ", " quoted.dropLast ++ ", and " ++ quoted.getLastD ""

/-- The complaint about a call of `function`. -/
def text (function : String) : ArityFault → String
  | .unexpectedName name => function ++ "() got an unexpected keyword argument '" ++ name ++ "'"
  | .repeatedArgument name =>
    function ++ "() got multiple values for argument '" ++ name ++ "'"
  | .tooMany fewest most given named =>
    let range :=
      if fewest = most then Decimal.digitsOf most
      else "from " ++ Decimal.digitsOf fewest ++ " to " ++ Decimal.digitsOf most
    let plural := fun n : Nat => if n = 1 then "" else "s"
    let also :=
      if named = 0 then ""
      else " positional argument" ++ plural given ++ " (and " ++ Decimal.digitsOf named ++
        " keyword-only argument" ++ plural named ++ ")"
    let verb := if given = 1 && named = 0 then "was" else "were"
    function ++ "() takes " ++ range ++ " positional argument" ++
      (if fewest = most then plural most else "s") ++ " but " ++ Decimal.digitsOf given ++ also ++
      " " ++ verb ++ " given"
  | .missing names =>
    function ++ "() missing " ++ Decimal.digitsOf names.length ++
      " required positional argument" ++ (if names.length = 1 then "" else "s") ++ ": " ++
      enumerate names

end ArityFault

namespace Signature

/-- Parameters that must be given. -/
def requiredCount (s : Signature) : Nat := (s.parameters.filter (·.default?.isNone)).length

/-- Places named arguments.  `filled` holds what the parameters have so far; what is left over is
added to the options. -/
def placeNamed (s : Signature) (filled : Entries String Value) (options : Entries Key Value) :
    List (Name × Value) → Except ArityFault (Entries String Value × Entries Key Value)
  | [] => .ok (filled, options)
  | (name, value) :: rest =>
    if (s.parameters.drop s.positionOnly ++ s.named).any (·.name == name.text) then
      if filled.has name.text then .error (.repeatedArgument name.text)
      else placeNamed s (filled.put name.text value) options rest
    else if s.takesOptions then placeNamed s filled (options.put (.atom name.value) value) rest
    else .error (.unexpectedName name.text)

/-- The value of a parameter. -/
def valueOf (filled : Entries String Value) (p : Parameter) : Value :=
  (filled.get? p.name).getD (p.default?.getD .none)

/-- Places the arguments of a call. -/
def bind (s : Signature) (args : Arguments) : Except ArityFault Bound := do
  let count := s.parameters.length
  let placed := (s.parameters.map (·.name)).zip args.positional
  let rest := args.positional.drop count
  let (filled, options) ← s.placeNamed placed [] args.named
  if !s.takesRest && !rest.isEmpty then
    let named := (s.named.filter fun p => filled.has p.name).length
    .error (.tooMany s.requiredCount count args.positional.length named)
  else
    let missing :=
      (s.parameters.filter fun p => p.default?.isNone && !filled.has p.name).map (·.name)
    if missing.isEmpty then
      .ok ⟨s.parameters.map (valueOf filled), rest, s.named.map (valueOf filled), options⟩
    else .error (.missing missing)

end Signature

end PageMeta
