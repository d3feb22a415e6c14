import PageMeta.Object.Introspection
import PageMeta.Object.Item
import PageMeta.Schema.Payload

/-!
# Attributes

What a name leads to on a value.  `lookup` only looks: it tells a value that is stored from a
function that is to be bound and from a field that is to be made.  `getAttribute` makes the object
that is handed out, another one each time.

* An attribute map answers the names of its functions first and its keys otherwise.
* A builder answers its attributes, then the names its class declares, and makes a dynamic field of
  any other name that is not private.
* A settings store answers its sections, then its attributes, then the names of its functions.
* A record answers its attributes, then the names of its functions, then its other entries.
* A class answers the names of its functions, and what it says about itself.

Beyond that, everything answers the names of the functions that every class has.
-/

namespace PageMeta

namespace Object

open Heap (isPrivate)

/-- The payload schema of a class of builders as a value. -/
def payloadClass (kind : BuilderKind) : Value :=
  match Schema.ofBuilder kind with
  | some schema => .classOf (.schema schema.name)
  | none => .none

/-- The first of several answers, or a complaint. -/
def firstOf (e : Error) (answers : List (Option Attribute)) : Except Error Attribute :=
  match answers.findSome? id with
  | some found => .ok found
  | none => .error e

/-! ## Maps, builders and stores -/

/-- The attribute of an attribute map other than its functions. -/
def mapAttribute (h : Heap) (m : Ref) (data : Value) (name : String) : Except Error Attribute :=
  if name = "_data" then .ok (.stored data)
  else if isPrivate name then .error (.missingName name)
  else
    match h.dict? m with
    | some (_, entries) =>
      firstOf (.undefinedKey name) [(entries.get? (Key.ofText name)).map .stored]
    | none =>
      match getItem h data (.ofText name) with
      | .ok v => .ok (.stored v)
      | .error (.keyAbsent _) => .error (.undefinedKey name)
      | .error e => .error e

/-- What is kept under a name in a dictionary of attributes. -/
def kept? (h : Heap) (attributes : Ref) (name : String) : Option Attribute :=
  ((h.entriesAt attributes).get? (Key.ofText name)).map .stored

/-- What a class of builders answers under a name beside its functions. -/
def builderFact? (kind : BuilderKind) : String → Option Attribute
  | "payload_model" => some (.stored (payloadClass kind))
  | "__annotations__" => some (.texts (fieldTypes (.builder .plain)))
  | "__weakref__" => some (.stored .none)
  | name => classFact? (.builder kind) name |>.filter fun _ => name == "__module__" || name == "__doc__"

/-- The attribute of a builder, given the function that its class has under the name. -/
def builderAttribute (h : Heap) (kind : BuilderKind) (attributes : Ref) (name : String)
    (method? : Option Attribute) : Except Error Attribute :=
  if name = "__dict__" then .ok (.stored (.ref attributes))
  else
    match [kept? h attributes name, method?, builderFact? kind name].findSome? id with
    | some found => .ok found
    | none => if isPrivate name then .error (.missingName name) else .ok .dynamic

/-- The value of a section of a store, given the dictionary of its attributes. -/
def sectionOf (h : Heap) (attributes : Ref) (name : SectionName) : Except Error Value :=
  match (h.entriesAt attributes).get? (Key.ofText "_sections") with
  | some sections => getItem h sections (.ofText name.name)
  | none => .error (.noAttribute ClassName.settingsStore.name "_sections")

/-- The attribute of a settings store, given the function that its class has under the name. -/
def storeAttribute (h : Heap) (attributes : Ref) (name : String) (method? : Option Attribute) :
    Except Error Attribute :=
  match SectionName.ofName? name with
  | some sec => .stored <$> sectionOf h attributes sec
  | none =>
    if name = "__dict__" then .ok (.stored (.ref attributes))
    else firstOf (.noAttribute ClassName.settingsStore.name name)
      [kept? h attributes name, method?]

/-! ## Records -/

/-- The attributes of records that are worked out. -/
def computedNames : List String := ["model_extra", "model_fields_set", "__fields_set__"]

/-- What a record has beside its attributes. -/
def recordFact? (attributes : Ref) (others : Option Ref) : String → Option Attribute
  | "model_extra" | "__pydantic_extra__" => some (.stored ((others.map Value.ref).getD .none))
  | "model_fields_set" | "__fields_set__" | "__pydantic_fields_set__"
  | "__pydantic_private__" => some (.stored .none)
  | "__dict__" => some (.stored (.ref attributes))
  | _ => none

/-- What a schema says about itself as a class. -/
def schemaFact? (schema name : String) : Option Attribute :=
  match name with
  | "model_config" =>
    let keeps := (Schema.payloads.find? (·.name == schema)).any (·.keepsOthers)
    some (.dict (if keeps then [("extra", .ofText "allow")] else []))
  | "model_fields" | "model_computed_fields" => some (.dict [])
  | "__pydantic_complete__" => some (.stored (.bool true))
  | "__pydantic_root_model__" | "__pydantic_custom_init__" => some (.stored (.bool false))
  | "__pydantic_post_init__" => some (.stored .none)
  | "__private_attributes__" | "__pydantic_computed_fields__" => some (.dict [])
  | _ =>
    if ClassName.schemaFunctions.contains name then
      some (.method (.classOf (.schema schema)) .record name)
    else none

/-- The attribute of a record, given the function that its class has under the name. -/
def recordAttribute (h : Heap) (schema : String) (attributes : Ref) (others : Option Ref)
    (name : String) (method? : Option Attribute) : Except Error Attribute :=
  let ofClass := (classFact? (.schema schema) name).filter fun _ =>
    ["__annotations__", "__module__", "__doc__"].contains name
  firstOf (.noRecordAttribute schema name)
    [recordFact? attributes others name, kept? h attributes name, method?,
     schemaFact? schema name, ofClass,
     ((h.otherEntries others).get? (Key.ofText name)).map .stored]

/-! ## Classes -/

/-- A function of plain data that is about the class itself. -/
def classFunction? (cls : ClassName) (name : String) : Option Attribute :=
  let owner? := cls.searchOrder.find? fun c =>
    match c with
    | .data type => (Plain.classFunctions type).contains name
    | _ => false
  owner?.map fun owner => .method (.classOf owner) owner name

/-- What the objects of a class have of their own that no function is, as the class has it. -/
def handleFact? (cls : ClassName) (name : String) : Option Attribute :=
  match cls with
  | .settingsStore => (SectionName.ofName? name).map fun sec => .stored (.sectionHandle sec)
  | .builder kind => if name = "payload_model" then some (.stored (payloadClass kind)) else none
  | .schema schema =>
    if computedNames.contains name then some (.stored .none) else schemaFact? schema name
  | .record => schemaFact? "" name
  | .featureState => stateFact? name
  | _ => if (slots cls).contains name then some (.stored .none) else none

/-- The attribute of a class. -/
def classAttribute (cls : ClassName) (name : String) : Except Error Attribute :=
  let missing := match cls with
    | .schema _ | .record | .featureState => Error.missingName name
    | _ => Error.noClassAttribute cls.name name
  firstOf missing
    [classFact? cls name, classFunction? cls name,
     (cls.definer? name).map fun owner => .stored (.function owner name),
     handleFact? cls name,
     (cls.classOf.definer? name).map fun owner => .method (.classOf cls) owner name]

/-! ## Other values -/

/-- The attribute of a number. -/
def numberFact? (v : Value) (name : String) : Option Attribute :=
  match v, name with
  | .real _ _, "real" => some (.stored v)
  | .real _ _, "imag" => some (.stored (.real (.finite false 0) .pending))
  | _, _ =>
    match v.integer?, name with
    | some n, "real" | some n, "numerator" =>
      match v with
      | .int _ _ => some (.stored v)
      | _ => some (.stored (.ofInt n))
    | some _, "imag" => some (.stored (.ofInt 0))
    | some _, "denominator" => some (.stored (.ofInt 1))
    | _, _ => none

/-- The attribute of a value that lives in no cell, given the function that its class has under the
name. -/
def scalarAttribute (h : Heap) (v : Value) (name : String) (method? : Option Attribute) :
    Except Error Attribute :=
  let missing := Error.noAttribute (h.typeName v) name
  match v with
  | .feature state => firstOf missing [stateAttribute? state name, method?]
  | .sectionHandle sec =>
    let own := match name with
      | "_name" => some (.text sec.name)
      | "__dict__" => some (.dict [("_name", .ofText sec.name)])
      | _ => none
    firstOf missing [own, method?]
  | .function owner own =>
    match name, method? with
    | "__call__", _ => .ok (.stored v)
    | _, some method => .ok method
    | _, none => functionAttribute owner own none name
  | .method receiver owner own _ =>
    match name, method? with
    | "__call__", _ => .ok (.stored v)
    | _, some method => .ok method
    | _, none => functionAttribute owner own (some receiver) name
  | _ => firstOf missing [numberFact? v name, method?]

/-- The attribute of a cell at an address, given the function that its class has under the
name. -/
def cellAttribute (h : Heap) (r : Ref) (name : String) (method? : Option Attribute) :
    Except Error Attribute :=
  let missing := Error.noAttribute (h.typeName (.ref r)) name
  match h.read r, method? with
  | some (.builder kind attributes), _ => builderAttribute h kind attributes name method?
  | some (.store attributes), _ => storeAttribute h attributes name method?
  | some (.record schema attributes others _), _ =>
    recordAttribute h schema attributes others name method?
  | _, some method => .ok method
  | some (.map data), none => mapAttribute h r data name
  | some (.field owner own), none =>
    match name with
    | "_builder" => .ok (.stored owner)
    | "_name" => .ok (.stored own)
    | _ => .error missing
  | _, none => .error missing

/-- What an object of a class answers on behalf of its class, if it has no answer of its own. -/
def onBehalf (cls : ClassName) (name : String) : Except Error Attribute → Except Error Attribute
  | .ok found => .ok found
  | .error e =>
    match name with
    | "__doc__" => .ok (.text? cls.description?)
    | "__module__" => if isPlain cls then .error e else .ok (.text cls.place)
    | "__slots__" => if (slots cls).isEmpty then .error e else .ok (slotNames cls)
    | "__weakref__" =>
      if isPlain cls || !(slots cls).isEmpty then .error e else .ok (.stored .none)
    | _ => .error e

/-- What a name leads to on a value. -/
def lookup (h : Heap) (v : Value) (name : String) : Except Error Attribute :=
  let cls := h.className v
  let bound? := (cls.definer? name).map fun owner => Attribute.method v owner name
  let method? := (classFunction? cls name).or bound?
  if name = "__class__" then .ok (.stored (.classOf cls))
  else if name = "__hash__" ∧ cls.isUnhashable then .ok (.stored .none)
  else onBehalf cls name <|
    match v with
    | .classOf cls => classAttribute cls name
    | .ref r => cellAttribute h r name method?
    | _ => scalarAttribute h v name method?

/-- Makes the object that a name leads to on a value. -/
def getAttribute (v : Value) (name : Name) : Heap.Action Value := do
  match ← Heap.ask fun h => lookup h v name.text with
  | .stored w => Heap.settle w
  | .method receiver owner name => Heap.settle (.method receiver owner name .pending)
  | .dynamic => return .ref (← Heap.alloc (.field v name.value))
  | .made cell => return .ref (← Heap.alloc cell)

/-- The error of a value that lacks an attribute. -/
def lack (h : Heap) (v : Value) (name : String) : Error :=
  match lookup h v name with
  | .error e => e
  | .ok _ => .noAttribute (h.typeName v) name

/-- Whether a value can be called. -/
def isCallable (h : Heap) (v : Value) : Bool :=
  match v, h.cell? v with
  | .function _ _, _ | .classOf _, _ | .routine _, _ | .method _ _ _ _, _ => true
  | _, some (.field _ _) => true
  | _, _ => false

end Object

end PageMeta
