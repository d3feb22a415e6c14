/-!
# Misuse of records

Calls of functions of records and of their schemas that cannot be carried out, whatever the values
are.  `Misuse.kind` is the class a caller catches one by, `Misuse.text` its wording.
-/

namespace PageMeta.Schema

/-- What is wrong with a call of a function of records. -/
inductive Misuse where
  /-- Fields can be given neither by name nor by alias. -/
  | noNames
  /-- What all records have in common is no schema. -/
  | bareRecord
  /-- No schema takes its fields from the attributes of objects unless it is told to. -/
  | attributesNotSet
  /-- No schema has parameters. -/
  | noParameters
  | encoderGiven
  | nestingGiven
  | writingOptionsGiven
  | localNamesGiven
  | unknownSurplus (name : String)
  | unknownContent (type : String)
  | unknownUnion (name : String)
deriving DecidableEq, Repr

namespace Misuse

/-- The class of a misuse. -/
def kind : Misuse → String
  | .noNames | .bareRecord | .attributesNotSet | .unknownUnion _ => "PydanticUserError"
  | .unknownSurplus _ => "ValueError"
  | _ => "TypeError"

/-- Where to read more about a misuse. -/
def link (code : String) : String :=
  "\n\nFor further information visit https://errors.pydantic.dev/2.14/u/" ++ code

/-- The text of a misuse. -/
def text : Misuse → String
  | .noNames =>
    "At least one of `by_alias` or `by_name` must be set to True." ++
      link "validate-by-alias-and-name-false"
  | .bareRecord =>
    "Pydantic models should inherit from BaseModel, BaseModel cannot be instantiated directly" ++
      link "base-model-instantiated"
  | .attributesNotSet => "You must set the config attribute `from_attributes=True` to use from_orm"
  | .noParameters => "Concrete names should only be generated for generic models."
  | .encoderGiven =>
    "The `encoder` argument is no longer supported; use field serializers instead."
  | .nestingGiven =>
    "The `models_as_dict` argument is no longer supported; use a model serializer instead."
  | .writingOptionsGiven => "`dumps_kwargs` keyword arguments are no longer supported."
  | .localNamesGiven => "`localns` arguments are not longer accepted."
  | .unknownSurplus name => "Invalid extra_behavior: `" ++ name ++ "`"
  | .unknownContent type => "Unknown content-type: " ++ type
  | .unknownUnion name => "Invalid union format: " ++ name

end Misuse

end PageMeta.Schema
