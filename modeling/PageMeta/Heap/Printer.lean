import PageMeta.Builder.Field
import PageMeta.Heap.Basic
import PageMeta.Object.Functions
import PageMeta.Schema.Settings

/-!
# Written forms

How values are written inside messages and keys, and the names of their types.

Text stands between quote marks, compounds in brackets.  The content of an attribute map is
written as plain data: the maps inside it show as dictionaries, while a map that is met anywhere
else shows its class.

* `written` is the form inside another value, `display` the form of a value on its own, in which
  text is shown as it is.
* `keyText` is the text under which a map files a key.
-/

namespace PageMeta

/-- The module in which a class is defined. -/
def ClassName.place : ClassName → String
  | .builder .plain | .dynamicField => "seo_builder.dsl.base"
  | .builder .metaTags => "seo_builder.dsl.meta_tags"
  | .builder .openGraph | .builder .article => "seo_builder.dsl.open_graph"
  | .builder .twitterCards => "seo_builder.dsl.twitter_cards"
  | .attributeMap => "seo_builder.config.attribute_map"
  | .settingsStore | .sectionHandle => "seo_builder.config.store"
  | .featureState => "seo_builder.config.registry"
  | .error _ => "seo_builder.exceptions"
  | .record => "pydantic.main"
  | .schema name =>
    if name.endsWith "Payload" || name == "RobotsDirective" then
      "seo_builder.contracts.payload_models"
    else "seo_builder.config.defaults"
  | .data "Enum" | .data "EnumType" => "enum"
  | .data "ModelMetaclass" => "pydantic._internal._model_construction"
  | .data "ABCMeta" => "abc"
  | .data _ => "builtins"

/-- The name of a class with its module; plain data needs none. -/
def ClassName.path (cls : ClassName) : String :=
  if cls.place = "builtins" then cls.name else cls.place ++ "." ++ cls.name

/-- The written form of a class. -/
def ClassName.written (cls : ClassName) : String :=
  if cls.classOf = .data "EnumType" then "<enum '" ++ cls.name ++ "'>"
  else "<class '" ++ cls.path ++ "'>"

/-- The class of a cell. -/
def Cell.className : Cell → ClassName
  | .list _ => .data "list"
  | .tuple _ => .data "tuple"
  | .dict _ => .data "dict"
  | .map _ => .attributeMap
  | .builder kind _ => .builder kind
  | .store _ => .settingsStore
  | .record schema _ _ _ => .schema schema
  | .field _ _ => .dynamicField
  | .liveKeys _ => .data "dict_keys"
  | .liveValues _ => .data "dict_values"
  | .liveItems _ => .data "dict_items"

/-- The class of a function of a class, bound to an object or not. -/
def functionClass (owner : ClassName) (name : String) (isBound : Bool) : ClassName :=
  match owner, isBound with
  | .data _, true =>
    .data (if ClassName.isSlot owner name then "method-wrapper" else "builtin_function_or_method")
  | .data _, false =>
    .data (if ClassName.isSlot owner name then "wrapper_descriptor" else "method_descriptor")
  | _, true => .data "method"
  | _, false => .data "function"

namespace Heap

/-- The class of a value. -/
def className (h : Heap) : Value → ClassName
  | .none => .data "NoneType"
  | .bool _ => .data "bool"
  | .int _ _ => .data "int"
  | .real _ _ => .data "float"
  | .text _ _ => .text
  | .bytes _ _ => .data "bytes"
  | .ref r => ((h.read r).map Cell.className).getD .root
  | .method _ owner name _ => functionClass owner name true
  | .function owner name => functionClass owner name false
  | .classOf cls => cls.classOf
  | .sectionHandle _ => .sectionHandle
  | .feature _ => .featureState
  | .routine _ => .data "function"

/-- The name of the class of a value. -/
def typeName (h : Heap) (v : Value) : String := (h.className v).name

/-- Items with a comma between them. -/
def commaList (items : List String) : String := String.intercalate ", " items

/-- Items in square brackets. -/
def listText (items : List String) : String := "[" ++ commaList items ++ "]"

/-- Items in round brackets; a single one has a comma after it. -/
def tupleText : List String → String
  | [item] => "(" ++ item ++ ",)"
  | items => "(" ++ commaList items ++ ")"

/-- Pairs in curly brackets. -/
def dictText (pairs : List (String × String)) : String :=
  "\x7b" ++ commaList (pairs.map fun p => p.1 ++ ": " ++ p.2) ++ "\x7d"

/-- Pairs as named arguments. -/
def argumentText (pairs : List (String × String)) : String :=
  commaList (pairs.map fun p => p.1 ++ "=" ++ p.2)

mutual

/-- The written form of a key, given that of values. -/
def keyWritten (show' : Value → String) : Key → String
  | .atom v => show' v
  | .tuple _ items => tupleText (keysWritten show' items)

/-- `keyWritten` of every key of a list. -/
def keysWritten (show' : Value → String) : List Key → List String
  | [] => []
  | k :: rest => keyWritten show' k :: keysWritten show' rest

end

/-- The fields of a record among its attributes. -/
def fieldsAt (h : Heap) (schema : String) (attributes : Ref) : Entries Key Value :=
  let names := (Schema.fieldNames schema).map Key.ofText
  (h.entriesAt attributes).filter fun p => names.any (· == p.1)

/-- The entries that a record shows: its declared fields, then all entries without a field. -/
def shownEntries (h : Heap) (schema : String) (attributes : Ref) (others : Option Ref) :
    Entries Key Value :=
  h.fieldsAt schema attributes ++ h.otherEntries others

/-- The attribute of the object at an address, if it has it. -/
def shownAttribute (h : Heap) (attributes : Ref) (name : String) : Value :=
  ((h.entriesAt attributes).get? (Key.ofText name)).getD .none

/-- A key as the name of an entry of a record: text as it is, anything else as it is written. -/
def entryName (show' : Value → String) : Key → String
  | .atom (.text s _) => s
  | .atom (.feature state) => "FeatureState." ++ state.constant
  | key => keyWritten show' key

/-- An entry of a record; the absent key leaves the value alone. -/
def entryText (show' : Value → String) : Key × Value → String
  | (.atom .none, v) => show' v
  | (key, v) => entryName show' key ++ "=" ++ show' v

/-- The written form of a value down to `depth` levels.  `plain` says that the value is part of an
attribute map, so that maps show as dictionaries. -/
def writtenTo (h : Heap) : Nat → Bool → Value → String
  | 0, _, _ => "..."
  | depth + 1, plain, v =>
    let inner := writtenTo h depth false
    let key := keyWritten inner
    match v with
    | .none => "None"
    | .bool b => if b then "True" else "False"
    | .int n _ => Decimal.ofInt n
    | .real x _ => Decimal.Layout.plain.write x
    | .text s _ => Text.quote s
    | .bytes bs _ => Text.quoteBytes bs
    | .method receiver owner name _ =>
      "<bound method " ++ owner.name ++ "." ++ name ++ " of " ++ inner receiver ++ ">"
    | .function owner name => "<function " ++ owner.name ++ "." ++ name ++ ">"
    | .classOf cls => cls.written
    | .sectionHandle name => "<section " ++ name.name ++ ">"
    | .feature state => "<FeatureState." ++ state.constant ++ ": '" ++ state.text ++ "'>"
    | .routine _ => "<function>"
    | .ref r =>
      match h.read r with
      | none => "..."
      | some (.list items) => listText (items.map (writtenTo h depth plain))
      | some (.tuple items) => tupleText (items.map inner)
      | some (.dict entries) => dictText (entries.map fun p => (key p.1, inner p.2))
      | some (.map _) =>
        let body := dictText ((h.entriesAt r).map fun p => (key p.1, writtenTo h depth true p.2))
        if plain then body else "DynamicAttributeMap(" ++ body ++ ")"
      | some (.builder kind attributes) =>
        kind.name ++ "(" ++ inner (h.shownAttribute attributes "_config") ++ ")"
      | some (.store attributes) =>
        let shown := fun name => (name, inner (h.shownAttribute attributes name))
        "ConfigStore(" ++
          argumentText [shown "site_name", shown "default_locale", shown "available_locales"] ++ ")"
      | some (.record schema attributes others _) =>
        schema ++ "(" ++ commaList
          ((h.shownEntries schema attributes others).map (entryText inner)) ++ ")"
      | some (.field builder name) =>
        "<field " ++ inner name ++ " of " ++ h.typeName builder ++ ">"
      | some (.liveKeys of) => "dict_keys(" ++ listText ((h.entriesAt of).keys.map key) ++ ")"
      | some (.liveValues of) =>
        "dict_values(" ++ listText ((h.entriesAt of).values.map inner) ++ ")"
      | some (.liveItems of) =>
        "dict_items(" ++
          listText ((h.entriesAt of).map fun p => tupleText [key p.1, inner p.2]) ++ ")"

/-- The written form of a value inside another. -/
def written (h : Heap) (v : Value) : String := h.writtenTo h.depth false v

/-- The text of a value on its own.  A record shows its entries only. -/
def display (h : Heap) : Value → String
  | .text s _ => s
  | .feature state => "FeatureState." ++ state.constant
  | v =>
    match h.cell? v with
    | some (.record schema attributes others _) =>
      String.intercalate " "
        ((h.shownEntries schema attributes others).map (entryText h.written))
    | _ => h.written v

/-- The key under which a map or builder files a value: text stays itself, anything else is filed
under its text, which is about to be made. -/
def nameKey (h : Heap) (v : Value) : Key :=
  if v.text?.isSome then .atom v else .atom (.newText (h.display v))

/-- The key under which a map or builder files what a dictionary has under a key. -/
def keyName (h : Heap) : Key → Key
  | .atom v => h.nameKey v
  | key => .atom (.newText (keyWritten h.written key))

@[simp] theorem nameKey_text (h : Heap) (s : String) (mark : Mark) :
    h.nameKey (.text s mark) = .atom (.text s mark) := rfl

@[simp] theorem keyName_ofText (h : Heap) (s : String) :
    h.keyName (Key.ofText s) = Key.ofText s := rfl

/-- The text of a key. -/
def keyText (h : Heap) : Key → String
  | .atom v => v.text?.getD (h.display v)
  | key => keyWritten h.written key

@[simp] theorem keyText_ofText (h : Heap) (s : String) : h.keyText (Key.ofText s) = s := rfl

end Heap

end PageMeta
