import PageMeta.Builder.Field
import PageMeta.Object.Signature

/-!
# Parameters of functions

What every function of a class takes, after the object that it is about, and what the functions of
the library take.  Functions of plain data that live in tables of their own have no parameters with
names (`PageMeta.Plain.Arity`).
-/

namespace PageMeta.Object

/-- The object that a function of a class is about. -/
def receiver : Parameter := .required "self"

/-- A parameter that is absent by default. -/
def optional (name : String) : Parameter := .optional name .none

/-- A parameter that is a truth value by default. -/
def option (name : String) (default : Bool) : Parameter := .optional name (.bool default)

/-- The value of a parameter that tells whether it was given at all. -/
def undefined : Value := .classOf (.data "PydanticUndefinedType")

/-- The parameters of a function of attribute maps. -/
def mapParameters : String → List Parameter
  | "get" => [.required "key", optional "default"]
  | "set" | "__setitem__" => [.required "key", .required "value"]
  | "merge" | "__eq__" => [.required "other"]
  | "__init__" => [optional "data"]
  | "__getitem__" | "__contains__" => [.required "key"]
  | "__getattr__" => [.required "name"]
  | "__setattr__" => [.required "name", .required "value"]
  | _ => []

/-- The parameters of a function of settings stores. -/
def storeParameters : String → List Parameter
  | "load_from_dict" => [.required "data"]
  | "section" => [.required "name"]
  | _ => []

/-- The parameters of a function of builders that is no declared field. -/
def builderParameters : String → List Parameter
  | "set" => [.required "key", .required "value"]
  | "get" => [.required "key"]
  | "nested" => [.required "name", .required "block"]
  | "evaluate" => [optional "block"]
  | "merge" => [.required "other"]
  | "_field" => [.required "name", optional "value"]
  | "_app_field" => [.required "name", .required "value", .required "platform"]
  | "__getattr__" => [.required "name"]
  | "__setattr__" => [.required "name", .required "value"]
  | _ => []

/-- The parameters of a function of what sections are called on the class of stores. -/
def handleParameters : String → List Parameter
  | "__set_name__" => [.required "owner", .required "name"]
  | "__get__" => [.required "instance", optional "owner"]
  | "__set__" => [.required "instance", .required "value"]
  | _ => []

/-! ## Records -/

/-- The class that a function of record schemas is about. -/
def classReceiver : Parameter := .required "cls"

/-- The parameters of a function of records or of their schemas. -/
def recordParameters : String → List Parameter
  | "model_validate" | "model_validate_strings" | "parse_obj" | "from_orm" =>
    [classReceiver, .required "obj"]
  | "model_validate_json" => [classReceiver, .required "json_data"]
  | "parse_raw" => [classReceiver, .required "b"]
  | "parse_file" => [classReceiver, .required "path"]
  | "validate" => [classReceiver, .required "value"]
  | "model_construct" | "construct" => [classReceiver, optional "_fields_set"]
  | "model_parametrized_name" => [classReceiver, .required "params"]
  | "model_rebuild" | "schema_json" | "update_forward_refs" => [classReceiver]
  | "model_json_schema" =>
    [classReceiver, option "by_alias" true, .optional "ref_template" refTemplate,
     optional "schema_generator", .optional "mode" (.ofText "validation")]
  | "schema" => [classReceiver, option "by_alias" true, .optional "ref_template" refTemplate]
  | "model_post_init" => [receiver, .required "context"]
  | "__getattr__" | "__delattr__" => [receiver, .required "item"]
  | "__setattr__" => [receiver, .required "name", .required "value"]
  | "__eq__" => [receiver, .required "other"]
  | "__deepcopy__" => [receiver, optional "memo"]
  | "__repr_str__" => [receiver, .required "join_str"]
  | _ => [receiver]
where
  /-- How a schema refers to another one. -/
  refTemplate : Value := .ofText "#/$defs/\x7bmodel\x7d"

/-- The choices of what a record gives as plain data. -/
def contentOptions : List Parameter := [optional "include", optional "exclude"]

/-- The choices of which entries of a record are left out. -/
def omissionOptions : List Parameter :=
  [option "exclude_unset" false, option "exclude_defaults" false, option "exclude_none" false]

/-- The choices of how a record is turned into plain data. -/
def dumpOptions : List Parameter :=
  contentOptions ++ [optional "context", optional "by_alias"] ++ omissionOptions ++
    [option "exclude_computed_fields" false, option "round_trip" false, option "warnings" true,
     optional "fallback", option "serialize_as_any" false]

/-- The choices of how a value is read as a record. -/
def readOptions : List Parameter :=
  [optional "strict", optional "extra", optional "context", optional "by_alias",
   optional "by_name"]

/-- The parameters of a function of records or of their schemas that go by name only. -/
def recordOptions : String → List Parameter
  | "model_copy" => [optional "update", option "deep" false]
  | "copy" => contentOptions ++ [optional "update", option "deep" false]
  | "model_dump" => .optional "mode" (.ofText "python") :: dumpOptions
  | "model_dump_json" => optional "indent" :: option "ensure_ascii" false :: dumpOptions
  | "dict" => contentOptions ++ [option "by_alias" false] ++ omissionOptions
  | "json" =>
    contentOptions ++ [option "by_alias" false] ++ omissionOptions ++
      [.optional "encoder" undefined, .optional "models_as_dict" undefined]
  | "model_validate" => readOptions ++ [optional "from_attributes"]
  | "model_validate_json" | "model_validate_strings" => readOptions
  | "parse_raw" | "parse_file" =>
    [optional "content_type", .optional "encoding" (.ofText "utf8"), optional "proto",
     option "allow_pickle" false]
  | "model_rebuild" =>
    [option "force" false, option "raise_errors" true,
     .optional "_parent_namespace_depth" (.ofInt 2), optional "_types_namespace"]
  | "model_json_schema" => [.optional "union_format" (.ofText "any_of")]
  | "schema_json" => [option "by_alias" true, optional "ref_template"]
  | _ => []

/-- The functions of records and of their schemas that take further named arguments. -/
def openFunctions : List String :=
  ["__init__", "model_construct", "construct", "json", "schema_json", "update_forward_refs",
   "__replace__"]

/-! ## Plain data -/

/-- The parameters of a function that every class has. -/
def rootParameters : String → List Parameter
  | "__setattr__" => [.required "name", .required "value"]
  | "__getattribute__" | "__delattr__" => [.required "name"]
  | "__eq__" | "__ne__" | "__lt__" | "__le__" | "__gt__" | "__ge__" => [.required "value"]
  | "__format__" => [.required "format_spec"]
  | _ => []

/-! ## Signatures -/

/-- The signature of a declared field. -/
def fieldSignature (function : String) : FieldRule → Signature
  | .plain | .handle => { function, parameters := [receiver, optional "value"] }
  | .list => { function, parameters := [receiver], takesRest := true }
  | .robots =>
    { function, takesOptions := true,
      parameters := [receiver, option "index" true, option "follow" true] }
  | .preset value => { function, parameters := [receiver, .optional "value" (.ofText value)] }
  | .article => { function, parameters := [receiver, optional "block"] }
  | .app => { function, parameters := [receiver, optional "value", optional "platform"] }

/-- The signature of a function of builders. -/
def builderSignature (kind : BuilderKind) (function name : String) : Signature :=
  match kind.field? name with
  | some rule => fieldSignature function rule
  | none => { function, parameters := receiver :: builderParameters name }

/-- The signature of a function of dynamic fields. -/
def dynamicSignature (function : String) : String → Signature
  | "__call__" =>
    { function, parameters := [receiver], takesRest := true, named := [optional "block"] }
  | "__init__" => { function, parameters := [receiver, .required "builder", .required "name"] }
  | _ => { function, parameters := [receiver] }

/-- The signature of a function of records or of their schemas. -/
def recordSignature (function name : String) : Signature :=
  { function, parameters := recordParameters name, named := recordOptions name,
    positionOnly := if name = "__init__" then 1 else 0,
    takesOptions := openFunctions.contains name }

/-- The signature of a function of a class. -/
def signature (owner : ClassName) (name : String) : Signature :=
  let function := owner.name ++ "." ++ name
  match owner with
  | .attributeMap => { function, parameters := receiver :: mapParameters name }
  | .settingsStore => { function, parameters := receiver :: storeParameters name }
  | .builder kind => builderSignature kind function name
  | .dynamicField => dynamicSignature function name
  | .sectionHandle => { function, parameters := receiver :: handleParameters name }
  | .record | .schema _ => recordSignature function name
  | .data _ => { function, parameters := receiver :: rootParameters name }
  | .featureState =>
    { function := "EnumType.__call__",
      parameters := [classReceiver, .required "value", optional "names"],
      named := [optional "module", optional "qualname", optional "type",
        .optional "start" (.ofInt 1), optional "boundary"] }
  | .error .undefinedKey => { function, parameters := [receiver, .required "key"] }
  | .error cls => { function := cls.name, parameters := [receiver], takesRest := true }

/-- The class whose function sets up new objects of a class. -/
def initializer : ClassName → ClassName
  | .builder _ => .builder .plain
  | .schema _ => .record
  | cls => cls

/-- The signature of making an object of a class. -/
def classSignature (cls : ClassName) : Signature := signature (initializer cls) "__init__"

/-- The signature of a function of the library. -/
def librarySignature (name : String) : Signature :=
  let parameters := match name with
    | "configure" => [optional "mutator"]
    | "enabled" | "feature_state" => [.required "name", optional "store"]
    | "flatten_values" => [.required "values"]
    | _ => []
  { function := name, parameters }

end PageMeta.Object
