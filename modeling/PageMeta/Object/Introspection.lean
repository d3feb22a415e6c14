import PageMeta.Heap.Trees
import PageMeta.Object.Annotation
import PageMeta.Object.Description
import PageMeta.Object.Parameters

/-!
# What functions and classes say about themselves

Names, descriptions, types and defaults of functions; names, descriptions and ancestors of classes;
the constants that stand for the states of features.

* `functionFact?` and `dataFunctionFact?` answer for functions.
* `classFact?` answers for classes.
* `stateFact?` answers for the states of features.
-/

namespace PageMeta.Object

/-- What a name leads to. -/
inductive Attribute where
  /-- A value that is there. -/
  | stored (v : Value)
  /-- A function of a class, to be bound to an object. -/
  | method (receiver : Value) (owner : ClassName) (name : String)
  /-- The field of a builder that goes by a name of no other meaning. -/
  | dynamic
  /-- An object that is made when it is asked for. -/
  | made (cell : Cell)
deriving Repr

namespace Attribute

/-- A text that is there. -/
def text (s : String) : Attribute := .stored (.ofText s)

/-- A text that is there, or nothing. -/
def text? (s? : Option String) : Attribute := .stored ((s?.map .ofText).getD .none)

/-- A dictionary with names as keys that is made when it is asked for. -/
def dict (entries : Entries String Value) : Attribute := .made (.dict (Heap.textKeys entries))

/-- A dictionary of texts that is made when it is asked for. -/
def texts (entries : List (String × String)) : Attribute :=
  .dict (entries.map fun p => (p.1, .ofText p.2))

/-- A tuple that is made when it is asked for. -/
def tuple (items : List Value) : Attribute := .made (.tuple items)

end Attribute

/-! ## Functions -/

/-- The defaults of parameters by position; nothing if all of them must be given. -/
def defaultsOf (signature : Signature) : Attribute :=
  let defaults := signature.parameters.filterMap (·.default?)
  if defaults.isEmpty then .stored .none else .tuple defaults

/-- The defaults of parameters that go by name only; nothing if there are none. -/
def namedDefaultsOf (signature : Signature) : Attribute :=
  let defaults := signature.named.map fun p => (p.name, p.default?.getD .none)
  if defaults.isEmpty then .stored .none else .dict defaults

/-- What a function of a class says about itself under a name. -/
def functionFact? (owner : ClassName) (name : String) : String → Option Attribute
  | "__name__" => some (.text name)
  | "__qualname__" => some (.text (owner.name ++ "." ++ name))
  | "__module__" => some (.text owner.place)
  | "__doc__" => some (.text? (owner.functionDescription? name))
  | "__defaults__" => some (defaultsOf (signature owner name))
  | "__kwdefaults__" => some (namedDefaultsOf (signature owner name))
  | "__annotations__" => some (.texts (functionTypes owner name))
  | "__dict__" => some (.dict [])
  | "__closure__" => some (.stored .none)
  | _ => none

/-- What a function of plain data says about itself under a name, bound to an object or not. -/
def dataFunctionFact? (owner : ClassName) (name : String) (receiver? : Option Value)
    (asked : String) : Option Attribute :=
  match asked, receiver? with
  | "__name__", _ => some (.text name)
  | "__qualname__", _ => some (.text (owner.name ++ "." ++ name))
  | "__doc__", _ => some (.text? (owner.functionDescription? name))
  | "__self__", some receiver => some (.stored receiver)
  | "__module__", some _ =>
    if ClassName.isSlot owner name then none else some (.stored .none)
  | "__objclass__", some _ =>
    if ClassName.isSlot owner name then some (.stored (.classOf owner)) else none
  | "__objclass__", none => some (.stored (.classOf owner))
  | _, _ => none

/-- What a function that is a value answers under a name. -/
def functionAttribute (owner : ClassName) (name : String) (receiver? : Option Value)
    (asked : String) : Except Error Attribute :=
  let own := match owner with
    | .data _ => dataFunctionFact? owner name receiver? asked
    | _ => functionFact? owner name asked
  match own, receiver?, owner, asked with
  | some found, _, _, _ => .ok found
  | none, _, .data _, _ =>
    .error (.noAttribute (functionClass owner name receiver?.isSome).name asked)
  | none, some receiver, _, "__self__" => .ok (.stored receiver)
  | none, some _, _, "__func__" => .ok (.stored (.function owner name))
  | none, _, _, _ => .error (.noAttribute (functionClass owner name false).name asked)

/-! ## Classes -/

/-- The names of what is stored on the objects of a class itself, not by name. -/
def slots : ClassName → List String
  | .attributeMap => ["_data"]
  | .dynamicField => ["_builder", "_name"]
  | _ => []

/-- The names of what is stored on the objects of a class itself, as a tuple. -/
def slotNames (cls : ClassName) : Attribute := .tuple ((slots cls).map .ofText)

/-- Whether a class is made of plain data. -/
def isPlain (cls : ClassName) : Bool := cls.place == "builtins"

/-- What a class says about itself under a name. -/
def classFact? (cls : ClassName) : String → Option Attribute
  | "__name__" | "__qualname__" => some (.text cls.name)
  | "__module__" => some (.text cls.place)
  | "__doc__" => some (.text? cls.description?)
  | "__mro__" => some (.tuple (cls.searchOrder.map .classOf))
  | "__bases__" => some (.tuple (cls.bases.map .classOf))
  | "__base__" => some (.stored ((cls.base?.map .classOf).getD .none))
  | "__annotations__" => if isPlain cls then none else some (.texts (fieldTypes cls))
  | "__slots__" => if (slots cls).isEmpty then none else some (slotNames cls)
  | "__hash__" => if cls.isUnhashable then some (.stored .none) else none
  | _ => none

/-! ## States of features -/

/-- The states by the texts that a function gives them. -/
def statesBy (name : FeatureState → String) : Attribute :=
  .dict (FeatureState.all.map fun state => (name state, .feature state))

/-- What the class of the states of features, and each of them, has under a name. -/
def stateFact? (name : String) : Option Attribute :=
  match FeatureState.all.find? fun state => state.constant == name with
  | some state => some (.stored (.feature state))
  | none =>
    match name with
    | "_member_map_" => some (statesBy FeatureState.constant)
    | "_value2member_map_" => some (statesBy FeatureState.text)
    | "_member_names_" =>
      some (.made (.list (FeatureState.all.map fun state => .ofText state.constant)))
    | "_member_type_" => some (.stored (.classOf .text))
    | _ => none

/-- What is stored on a state. -/
def stateEntries (state : FeatureState) : Entries String Value :=
  [("_value_", .ofText state.text), ("_name_", .ofText state.constant),
   ("__objclass__", .classOf .featureState),
   ("_sort_order_", .ofInt (FeatureState.all.idxOf state))]

/-- What a state has under a name, other than functions. -/
def stateAttribute? (state : FeatureState) : String → Option Attribute
  | "value" => some (.text state.text)
  | "name" => some (.text state.constant)
  | "__dict__" => some (.dict (stateEntries state))
  | name =>
    match (stateEntries state).get? name with
    | some v => some (.stored v)
    | none => stateFact? name

end PageMeta.Object
