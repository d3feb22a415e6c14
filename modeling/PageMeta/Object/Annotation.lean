import PageMeta.Builder.Field
import PageMeta.Schema.Settings

/-!
# Annotations

The types that functions and classes state, as texts: those of the parameters of a function and of
its result, and those of the fields of a class.
-/

namespace PageMeta

/-- What stands for the result of a function among its types. -/
def resultName : String := "return"

/-- The types of a declared field of builders. -/
def FieldRule.types (name : String) : FieldRule → List (String × String)
  | .plain =>
    let type :=
      if ["image", "video", "audio"].contains name then "str | dict[str, Any] | None"
      else if ["player_width", "player_height"].contains name then "int | None"
      else "str | None"
    [("value", type)]
  | .handle => [("value", "str | None")]
  | .list => [("values", "Any")]
  | .robots =>
    [("index", "bool"), ("follow", "bool"), ("options", "Any"), (resultName, "MetaTagsBuilder")]
  | .preset _ => [("value", "str"), (resultName, "MetaTagsBuilder")]
  | .article => [("block", "Block | None")]
  | .app => [("value", "str | None"), ("platform", "str | None")]

/-- The types of a function of attribute maps. -/
def mapTypes : String → List (String × String)
  | "__init__" => [("data", "Mapping[str, Any] | DynamicAttributeMap | None"), (resultName, "None")]
  | "get" => [("key", "str"), ("default", "Any"), (resultName, "Any")]
  | "set" => [("key", "str"), ("value", "Any"), (resultName, "DynamicAttributeMap")]
  | "merge" =>
    [("other", "Mapping[str, Any] | DynamicAttributeMap"), (resultName, "DynamicAttributeMap")]
  | "to_dict" => [(resultName, "dict[str, Any]")]
  | "__getitem__" => [("key", "str"), (resultName, "Any")]
  | "__setitem__" => [("key", "str"), ("value", "Any"), (resultName, "None")]
  | "__contains__" => [("key", "object"), (resultName, "bool")]
  | "__iter__" => [(resultName, "Iterator[str]")]
  | "__len__" => [(resultName, "int")]
  | "__getattr__" => [("name", "str"), (resultName, "Any")]
  | "__setattr__" => [("name", "str"), ("value", "Any"), (resultName, "None")]
  | "__eq__" => [("other", "object"), (resultName, "bool")]
  | "__repr__" => [(resultName, "str")]
  | _ => []

/-- The types of a function of settings stores. -/
def storeTypes : String → List (String × String)
  | "__init__" => [(resultName, "None")]
  | "load_from_dict" => [("data", "Mapping[str, Any]"), (resultName, "ConfigStore")]
  | "section" => [("name", "str"), (resultName, "DynamicAttributeMap")]
  | "to_dict" => [(resultName, "dict[str, Any]")]
  | "__repr__" => [(resultName, "str")]
  | _ => [(resultName, "bool")]

/-- The types of a function of all builders. -/
def builderTypes : String → List (String × String)
  | "__init__" => [(resultName, "None")]
  | "set" => [("self", "BuilderT"), ("key", "str"), ("value", "Any"), (resultName, "BuilderT")]
  | "get" => [("key", "str"), (resultName, "Any")]
  | "nested" => [("self", "BuilderT"), ("name", "str"), ("block", "Block"), (resultName, "BuilderT")]
  | "evaluate" => [("self", "BuilderT"), ("block", "Block | None"), (resultName, "BuilderT")]
  | "validate" => [(resultName, "bool")]
  | "build" | "to_dict" => [(resultName, "dict[str, Any]")]
  | "build_model" => [(resultName, "BaseModel")]
  | "merge" =>
    [("self", "BuilderT"), ("other", "Mapping[str, Any] | DynamicAttributeMap | BuilderBase"),
     (resultName, "BuilderT")]
  | "_field" => [("name", "str"), ("value", "Any"), (resultName, "Any")]
  | "_app_field" => [("name", "str"), ("value", "Any"), ("platform", "str | None")]
  | "__getattr__" => [("name", "str"), (resultName, "_DynamicField")]
  | "__setattr__" => [("name", "str"), ("value", "Any"), (resultName, "None")]
  | "__repr__" => [(resultName, "str")]
  | _ => []

/-- The types of a function of dynamic fields. -/
def dynamicTypes : String → List (String × String)
  | "__init__" => [("builder", "BuilderBase"), ("name", "str"), (resultName, "None")]
  | "__call__" => [("values", "Any"), ("block", "Block | None"), (resultName, "Any")]
  | "__repr__" => [(resultName, "str")]
  | _ => []

/-- The types of a function of what sections are called on the class of stores. -/
def handleTypes : String → List (String × String)
  | "__set_name__" => [("owner", "type"), ("name", "str"), (resultName, "None")]
  | "__get__" => [("instance", "ConfigStore | None"), ("owner", "type | None")]
  | "__set__" => [("instance", "ConfigStore"), ("value", "Any"), (resultName, "None")]
  | _ => []

/-- The types of a function of a class. -/
def functionTypes (owner : ClassName) (name : String) : List (String × String) :=
  match owner with
  | .attributeMap => mapTypes name
  | .settingsStore => storeTypes name
  | .builder kind =>
    match kind.field? name with
    | some rule => rule.types name
    | none => builderTypes name
  | .dynamicField => dynamicTypes name
  | .sectionHandle => handleTypes name
  | .error .undefinedKey => [("key", "str"), (resultName, "None")]
  | _ => []

/-- The type of the values of a shape. -/
def Shape.type : Shape → String
  | .anything => "Any"
  | .text _ => "str"
  | .flag => "bool"
  | .integer _ _ => "int"
  | .number _ _ => "float"
  | .texts => "list[str]"
  | .mapping item => "dict[str, " ++ item.type ++ "]"
  | .record schema => schema.name
  | .optional shape => shape.type ++ " | None"
  | .textOrMapping => "str | dict[str, Any]"

/-- The types of the fields of a class. -/
def fieldTypes : ClassName → List (String × String)
  | .schema name =>
    ((Schema.named? name).map fun s => s.fields.map fun f => (f.name, f.shape.type)).getD []
  | .builder .plain => [("payload_model", "ClassVar[type[BaseModel] | None]")]
  | _ => []

/-- A nullable shape allows nothing beside its values. -/
example : (Shape.optional (.text 0)).type = "str | None" := by decide +kernel

end PageMeta
