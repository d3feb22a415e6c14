import PageMeta.Numeric.Decimal
import PageMeta.Text.Quoted
import PageMeta.Text.Utf8

/-!
# Faults of functions of plain data

Why a call of a function of numbers, texts, bytes, sequences or dictionaries fails.  `Fault.kind` is
the class a caller catches a fault by, `Fault.text` its wording.
-/

namespace PageMeta.Plain

/-- How many arguments are expected. -/
inductive Count where
  | exactly (n : Nat)
  | atLeast (n : Nat)
  | atMost (n : Nat)
deriving DecidableEq, Repr

namespace Count

/-- The words before the number. -/
def words : Count → String
  | .exactly _ => ""
  | .atLeast _ => "at least "
  | .atMost _ => "at most "

/-- The number. -/
def number : Count → Nat
  | .exactly n | .atLeast n | .atMost n => n

/-- A noun for so many arguments. -/
def arguments (n : Nat) : String := if n = 1 then "argument" else "arguments"

end Count

/-- Why a call of a function of plain data fails. -/
inductive Fault where
  /-- A function is called with a wrong number of arguments. -/
  | argumentCount (function : String) (takes : Count) (given : Nat)
  /-- A function that takes its arguments apart by position is called with a wrong number of them. -/
  | unpackCount (function : String) (expected : Count) (given : Nat)
  /-- What stands behind an operator is called with a wrong number of arguments. -/
  | operandCount (expected given : Nat)
  | noNames (function : String)
  | noPositions (function : String)
  | unknownName (function name : String)
  | givenTwice (function name : String) (position : Nat)
  | missingArgument (function name : String) (position : Nat)
  | noReceiver (function : String)
  | noOperand (owner name : String)
  | foreignReceiver (owner name type : String)
  | foreignOperand (owner name type : String)
  /-- Something is of this type, which it must not be. -/
  | wrongType (subject expected type : String)
  | notCreatable (cls : String)
  /-- A value of this type is to be a number of items. -/
  | notIndex (type : String)
  | indexTooLarge
  /-- The bound of a slice is no integer; absent bounds may be allowed. -/
  | sliceBound (orAbsent : Bool)
  /-- What is looked for, as it is written, is not in a list. -/
  | notInList (written : String)
  /-- What is looked for is not there. -/
  | notFound (function sequence : String)
  | partNotFound (noun : String)
  | emptyList
  | popRange
  | emptyDictionary
  | notOrdered (operator left right : String)
  | concatenation (sequence type : String)
  | repetition (type : String)
  | emptySeparator
  | joinItem (index : Nat) (type : String)
  | notJoinable
  | notMapping (function type : String)
  | namesNotTexts
  | unknownEncoding (name : String)
  /-- A text has characters, from a first to a last position, that an encoding has not. -/
  | notEncodable (encoding : String) (first last : Nat) (character : Char) (limit : Nat)
  | notDecodable (encoding : String) (byte : UInt8) (position limit : Nat)
  | invalidInteger (base : Nat) (written : String)
  | invalidNumber (written : String)
  | notANumber (target : String)
  | infinite (target : String)
  | numberTooLarge
  | baseForNumber
  | baseRange
  | notBytes (type : String)
  | decodingText
  | decodingOther (type : String)
  | textWithoutEncoding
  | negativeCount
  | byteRange
  | hexDigit (position : Nat)
  | noArguments (cls : String)
  | badFill (subject : String)
  | unequalTables
  | typeCount
  /-- A class of a closed set has members, so that no names can be added. -/
  | closedSet (written : String)
deriving Repr

namespace Fault

/-- The class of a fault. -/
def kind : Fault → String
  | .notInList _ | .notFound _ _ | .partNotFound _ | .emptySeparator | .invalidInteger _ _
  | .invalidNumber _ | .notANumber _ | .baseRange | .negativeCount | .byteRange | .hexDigit _
  | .unequalTables => "ValueError"
  | .emptyList | .popRange => "IndexError"
  | .emptyDictionary => "KeyError"
  | .indexTooLarge | .infinite _ | .numberTooLarge => "OverflowError"
  | .unknownEncoding _ => "LookupError"
  | .notEncodable _ _ _ _ _ => "UnicodeEncodeError"
  | .notDecodable _ _ _ _ => "UnicodeDecodeError"
  | _ => "TypeError"

/-- The complaint about characters that an encoding has not. -/
def encodingText (encoding : String) (first last : Nat) (character : Char) (limit : Nat) :
    String :=
  let range := " not in range(" ++ Decimal.digitsOf limit ++ ")"
  let code := character.toNat
  let written :=
    if code < 0x100 then "\\x" ++ String.ofList (Text.hex 2 code)
    else if code < 0x10000 then "\\u" ++ String.ofList (Text.hex 4 code)
    else "\\U" ++ String.ofList (Text.hex 8 code)
  if first = last then
    "'" ++ encoding ++ "' codec can't encode character '" ++ written ++ "' in position " ++
      Decimal.digitsOf first ++ ": ordinal" ++ range
  else
    "'" ++ encoding ++ "' codec can't encode characters in position " ++ Decimal.digitsOf first ++
      "-" ++ Decimal.digitsOf last ++ ": ordinal" ++ range

/-- The wording of a wrong number of arguments. -/
def countText (function : String) (takes : Count) (given : Nat) : String :=
  let number := match takes with
    | .exactly 0 => "no arguments"
    | .exactly 1 => "exactly one argument"
    | .exactly n => "exactly " ++ Decimal.digitsOf n ++ " arguments"
    | count => count.words ++ Decimal.digitsOf count.number ++ " " ++ Count.arguments count.number
  function ++ "() takes " ++ number ++ " (" ++ Decimal.digitsOf given ++ " given)"

/-- The text of a fault. -/
def text : Fault → String
  | .argumentCount function takes given => countText function takes given
  | .unpackCount function expected given =>
    function ++ " expected " ++ expected.words ++ Decimal.digitsOf expected.number ++ " " ++
      Count.arguments expected.number ++ ", got " ++ Decimal.digitsOf given
  | .operandCount expected given =>
    (if 1 < expected then " " else "") ++ "expected " ++ Decimal.digitsOf expected ++ " " ++
      Count.arguments expected ++ ", got " ++ Decimal.digitsOf given
  | .noNames function => function ++ "() takes no keyword arguments"
  | .noPositions function => function ++ "() takes no positional arguments"
  | .unknownName function name =>
    "'" ++ name ++ "' is an invalid keyword argument for " ++ function ++ "()"
  | .givenTwice function name position =>
    "argument for " ++ function ++ "() given by name ('" ++ name ++ "') and position (" ++
      Decimal.digitsOf position ++ ")"
  | .missingArgument function name position =>
    function ++ "() missing required argument '" ++ name ++ "' (pos " ++
      Decimal.digitsOf position ++ ")"
  | .noReceiver function => "unbound method " ++ function ++ "() needs an argument"
  | .noOperand owner name =>
    "descriptor '" ++ name ++ "' of '" ++ owner ++ "' object needs an argument"
  | .foreignReceiver owner name type =>
    "descriptor '" ++ name ++ "' for '" ++ owner ++ "' objects doesn't apply to a '" ++ type ++
      "' object"
  | .foreignOperand owner name type =>
    "descriptor '" ++ name ++ "' requires a '" ++ owner ++ "' object but received a '" ++ type ++
      "'"
  | .wrongType subject expected type =>
    (if subject.isEmpty then "" else subject ++ " ") ++ "must " ++ expected ++
      (if type.isEmpty then "" else ", not " ++ type)
  | .notCreatable cls => "cannot create '" ++ cls ++ "' instances"
  | .notIndex type => "'" ++ type ++ "' object cannot be interpreted as an integer"
  | .indexTooLarge => "Python int too large to convert to C ssize_t"
  | .sliceBound orAbsent =>
    "slice indices must be integers or " ++ (if orAbsent then "None or " else "") ++
      "have an __index__ method"
  | .notInList written => written ++ " is not in list"
  | .notFound function sequence => function ++ "(x): x not in " ++ sequence
  | .partNotFound noun => noun ++ " not found"
  | .emptyList => "pop from empty list"
  | .popRange => "pop index out of range"
  | .emptyDictionary => "'popitem(): dictionary is empty'"
  | .notOrdered operator left right =>
    "'" ++ operator ++ "' not supported between instances of '" ++ left ++ "' and '" ++ right ++
      "'"
  | .concatenation "bytes" type => "can't concat " ++ type ++ " to bytes"
  | .concatenation sequence type =>
    "can only concatenate " ++ sequence ++ " (not \"" ++ type ++ "\") to " ++ sequence
  | .repetition type => "can't multiply sequence by non-int of type '" ++ type ++ "'"
  | .emptySeparator => "empty separator"
  | .joinItem index type =>
    "sequence item " ++ Decimal.digitsOf index ++ ": expected str instance, " ++ type ++ " found"
  | .notJoinable => "can only join an iterable"
  | .notMapping function type => function ++ "() argument after ** must be a mapping, not " ++ type
  | .namesNotTexts => "keywords must be strings"
  | .unknownEncoding name => "unknown encoding: " ++ name
  | .notEncodable encoding first last character limit =>
    encodingText encoding first last character limit
  | .notDecodable encoding byte position limit =>
    "'" ++ encoding ++ "' codec can't decode byte 0x" ++ String.ofList (Text.hex 2 byte.toNat) ++
      " in position " ++ Decimal.digitsOf position ++ ": ordinal not in range(" ++
      Decimal.digitsOf limit ++ ")"
  | .invalidInteger base written =>
    "invalid literal for int() with base " ++ Decimal.digitsOf base ++ ": " ++ written
  | .invalidNumber written => "could not convert string to float: " ++ written
  | .notANumber target => "cannot convert float NaN to " ++ target
  | .infinite target => "cannot convert float infinity to " ++ target
  | .numberTooLarge => "int too large to convert to float"
  | .baseForNumber => "int() can't convert non-string with explicit base"
  | .baseRange => "int() base must be >= 2 and <= 36, or 0"
  | .notBytes type => "cannot convert '" ++ type ++ "' object to bytes"
  | .decodingText => "decoding str is not supported"
  | .decodingOther type => "decoding to str: need a bytes-like object, " ++ type ++ " found"
  | .textWithoutEncoding => "string argument without an encoding"
  | .negativeCount => "negative count"
  | .byteRange => "bytes must be in range(0, 256)"
  | .hexDigit position =>
    "non-hexadecimal number found in fromhex() arg at position " ++ Decimal.digitsOf position
  | .noArguments cls => cls ++ " takes no arguments"
  | .badFill subject => subject ++ " must be exactly one character long"
  | .typeCount => "type() takes 1 or 3 arguments"
  | .unequalTables => "the first two maketrans arguments must have equal length"
  | .closedSet written => "<enum " ++ written ++ "> cannot extend <enum 'FeatureState'>"

end Fault

end PageMeta.Plain
