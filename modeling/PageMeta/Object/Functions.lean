import PageMeta.Builder.Field
import PageMeta.Plain.Names
import PageMeta.Value.Basic

/-!
# Functions of classes

Which names the classes of the library have functions for, and which class a function comes from.
-/

namespace PageMeta

/-- The function that tells whether the feature of a section is on. -/
def SectionName.query (s : SectionName) : String := s.name ++ "_enabled"

/-- The sections whose features can be asked for. -/
def SectionName.features : List SectionName :=
  [.sitemap, .robots, .openGraph, .twitter, .images, .structuredData]

namespace ClassName

/-- The functions of attribute maps. -/
def mapFunctions : List String :=
  ["get", "set", "merge", "to_dict", "keys", "items", "__init__", "__getitem__", "__setitem__",
   "__contains__", "__iter__", "__len__", "__getattr__", "__setattr__", "__eq__", "__repr__"]

/-- The functions of settings stores. -/
def storeFunctions : List String :=
  ["load_from_dict", "section", "validate", "to_dict", "__init__", "__repr__"] ++
    SectionName.features.map SectionName.query

/-- The functions of all builders. -/
def builderFunctions : List String :=
  ["set", "get", "nested", "evaluate", "validate", "build", "build_model", "to_dict", "merge",
   "_field", "__init__", "__getattr__", "__setattr__", "__repr__"]

/-- The functions of dynamic fields. -/
def fieldFunctions : List String := ["__init__", "__call__", "__repr__"]

/-- The functions of records. -/
def recordFunctions : List String :=
  ["model_dump", "model_copy", "dict", "copy", "model_dump_json", "json", "model_post_init",
   "__init__", "__eq__", "__iter__", "__repr__", "__setattr__", "__getattr__", "__copy__"]

/-- The functions of record schemas, which are about the schema even if a record is asked. -/
def schemaFunctions : List String :=
  ["model_validate", "model_construct", "model_validate_json", "model_validate_strings",
   "model_json_schema", "model_parametrized_name", "model_rebuild", "construct", "validate",
   "parse_obj", "parse_raw", "parse_file", "from_orm", "schema", "schema_json",
   "update_forward_refs"]

/-- Whether a function of plain data stands behind an operator or a function of the language rather
than in a table of functions that go by name. -/
def isSlot : ClassName → String → Bool
  | .data type, name => Plain.isSlot type name
  | _, _ => false

/-- Whether the objects of a class cannot be keys of dictionaries. -/
def isUnhashable : ClassName → Bool
  | .attributeMap | .record | .schema _ => true
  | .data type => ["list", "dict", "dict_keys", "dict_items"].contains type
  | _ => false

/-- The functions that a class defines itself. -/
def ownFunctions : ClassName → List String
  | .attributeMap => mapFunctions
  | .settingsStore => storeFunctions
  | .builder .plain => builderFunctions
  | .builder kind => kind.functions
  | .dynamicField => fieldFunctions
  | .record => recordFunctions
  | .data "object" => Plain.rootFunctions
  | .data type => Plain.functions type
  | .sectionHandle => ["__set_name__", "__get__", "__set__"]
  | .schema _ | .featureState | .error _ => []

/-- The class that defines the function an object of a class answers a name with. -/
def definer? (cls : ClassName) (name : String) : Option ClassName :=
  cls.searchOrder.find? fun c => (ownFunctions c).contains name

end ClassName

end PageMeta
