import PageMeta.Numeric.Decimal

/-!
# Issues of a record

What checking a value against a record schema can complain about, and the report that lists all
complaints about one value.
-/

namespace PageMeta.Schema

/-- What is wrong with a part of a value. -/
inductive IssueKind where
  | notRecord (schema : String)
  /-- In a document, there is no object where a record should be. -/
  | notRecordObject
  /-- The value has no attributes that could be fields of a record. -/
  | notAttributes
  /-- An attribute that should be a field went wrong. -/
  | attributeFault (message : String)
  | surplus
  | missing
  | keyNotText
  | notText
  | textNotUnicode
  | textTooShort (least : Nat)
  | notFlag
  | flagUnreadable
  | notInteger
  | integerUnreadable
  | integerTooLong
  | integerFraction
  | notFinite
  | notNumber
  | numberUnreadable
  | belowBound (bound : String)
  | aboveBound (bound : String)
  | notList
  /-- In a document, there is no array where a list should be. -/
  | notArray
  | notMapping
  /-- In a document, there is no object where a mapping should be. -/
  | notObject
  /-- A value is no text that could be a document. -/
  | notDocument
  /-- A text is no document. -/
  | documentFault (message : String)
  /-- A complaint with a code and a text of its own. -/
  | custom (code message : String)
deriving DecidableEq, Repr

namespace IssueKind

/-- The code of a complaint. -/
def code : IssueKind → String
  | .notRecord _ | .notRecordObject => "model_type"
  | .notAttributes => "model_attributes_type"
  | .attributeFault _ => "get_attribute_error"
  | .surplus => "extra_forbidden"
  | .missing => "missing"
  | .keyNotText => "invalid_key"
  | .notText => "string_type"
  | .textNotUnicode => "string_unicode"
  | .textTooShort _ => "string_too_short"
  | .notFlag => "bool_type"
  | .flagUnreadable => "bool_parsing"
  | .notInteger => "int_type"
  | .integerUnreadable => "int_parsing"
  | .integerTooLong => "int_parsing_size"
  | .integerFraction => "int_from_float"
  | .notFinite => "finite_number"
  | .notNumber => "float_type"
  | .numberUnreadable => "float_parsing"
  | .belowBound _ => "greater_than_equal"
  | .aboveBound _ => "less_than_equal"
  | .notList | .notArray => "list_type"
  | .notMapping | .notObject => "dict_type"
  | .notDocument => "json_type"
  | .documentFault _ => "json_invalid"
  | .custom code _ => code

/-- The wording of a complaint. -/
def text : IssueKind → String
  | .notRecord schema => "Input should be a valid dictionary or instance of " ++ schema
  | .notRecordObject | .notObject => "Input should be an object"
  | .notAttributes => "Input should be a valid dictionary or object to extract fields from"
  | .attributeFault message => "Error extracting attribute: " ++ message
  | .surplus => "Extra inputs are not permitted"
  | .missing => "Field required"
  | .keyNotText => "Keys should be strings"
  | .notText => "Input should be a valid string"
  | .textNotUnicode =>
    "Input should be a valid string, unable to parse raw data as a unicode string"
  | .textTooShort least =>
    "String should have at least " ++ Decimal.digitsOf least ++ " character" ++
      (if least = 1 then "" else "s")
  | .notFlag => "Input should be a valid boolean"
  | .flagUnreadable => "Input should be a valid boolean, unable to interpret input"
  | .notInteger => "Input should be a valid integer"
  | .integerUnreadable =>
    "Input should be a valid integer, unable to parse string as an integer"
  | .integerTooLong =>
    "Unable to parse input string as an integer, exceeded maximum size"
  | .integerFraction => "Input should be a valid integer, got a number with a fractional part"
  | .notFinite => "Input should be a finite number"
  | .notNumber => "Input should be a valid number"
  | .numberUnreadable => "Input should be a valid number, unable to parse string as a number"
  | .belowBound bound => "Input should be greater than or equal to " ++ bound
  | .aboveBound bound => "Input should be less than or equal to " ++ bound
  | .notList => "Input should be a valid list"
  | .notArray => "Input should be a valid array"
  | .notMapping => "Input should be a valid dictionary"
  | .notDocument => "JSON input should be string, bytes or bytearray"
  | .documentFault message => "Invalid JSON: " ++ message
  | .custom _ message => message

/-- Whether there is more to read about a complaint. -/
def isKnown : IssueKind → Bool
  | .custom _ _ => false
  | _ => true

end IssueKind

/-- A complaint about a part of a value. -/
structure Issue where
  /-- The way from the value to the part. -/
  location : List String
  kind : IssueKind
  /-- The written form of the part, cut to a readable length. -/
  shown : String
  /-- The name of the part's type. -/
  typeName : String
deriving DecidableEq, Repr

/-- The complaints about one value. -/
structure Report where
  schema : String
  issues : List Issue
deriving DecidableEq, Repr

/-- One step of a location; a step that has a point in it is set off. -/
def showStep (step : String) : String :=
  if step.toList.contains '.' then "`" ++ step ++ "`" else step

/-- The lines of a complaint. -/
def Issue.lines (issue : Issue) : List String :=
  (if issue.location.isEmpty then []
   else [String.intercalate "." (issue.location.map showStep)]) ++
  ["  " ++ issue.kind.text ++ " [type=" ++ issue.kind.code ++ ", input_value=" ++ issue.shown ++
    ", input_type=" ++ issue.typeName ++ "]"] ++
  (if issue.kind.isKnown then
    ["    For further information visit https://errors.pydantic.dev/2.14/v/" ++ issue.kind.code]
   else [])

/-- The text of a report. -/
def Report.text (report : Report) : String :=
  let count := report.issues.length
  let title := Decimal.digitsOf count ++ " validation error" ++ (if count = 1 then "" else "s") ++
    " for " ++ report.schema
  String.intercalate "\n" (title :: report.issues.flatMap Issue.lines)

end PageMeta.Schema
