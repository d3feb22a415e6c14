import PageMeta.Builder.Setter
import PageMeta.Settings.Store

/-!
# Assigning attributes

Storing a value on an object under a name.

* An attribute map and a builder store it as an entry, unless the name is private.
* A settings store keeps it, unless it is the name of a section.
* A record stores it as a field, without checking it, or as another entry if its schema keeps those.

Private names are kept beside, where there is a place for them: `place` stores without asking what
the class of an object makes of a name, and `remove` takes an attribute away in the same way.
-/

namespace PageMeta.Object

variable {κ : Type}

open Heap (isPrivate)

/-! ## Storing without asking the class -/

/-- Whether an attribute of plain data is there but cannot be written. -/
def isFixed (h : Heap) (v : Value) (name : String) : Bool :=
  match v with
  | .method receiver (.data type) own _ =>
    (dataFunctionFact? (.data type) own (some receiver) name).isSome
  | .function (.data type) own => (dataFunctionFact? (.data type) own none name).isSome
  | _ => (numberFact? v name).isSome && isPlain (h.className v)

/-- The complaint about an object that has no place for an attribute: its class may have one of
that name. -/
def noPlace (h : Heap) (v : Value) (name : String) : Error :=
  let cls := h.className v
  let missing := Error.noAttribute cls.name name
  let ofClass := (cls.definer? name).isSome || name = "__hash__" ||
    (onBehalf cls name (.error missing)).toOption.isSome
  if isFixed h v name then .fixedAttribute cls.name name
  else if ofClass then .readOnlyAttribute cls.name name
  else missing

/-- Whether objects keep attributes by name and nothing else, so that any of them can become an
object of another such class. -/
def isOpen : ClassName → Bool
  | .builder _ | .settingsStore | .sectionHandle => true
  | _ => false

/-- Gives an object another class. -/
def changeClass (v w : Value) : Heap.Action Unit := do
  let h ← get
  let old := h.className v
  match w with
  | .classOf new =>
    if isPlain old || isPlain new then throw .classImmutable
    if new = old then return ()
    match v, h.cell? v, new with
    | .ref r, some (.builder _ attributes), .builder kind
    | .ref r, some (.store attributes), .builder kind => Heap.put r (.builder kind attributes)
    | .ref r, some (.builder _ attributes), .settingsStore => Heap.put r (.store attributes)
    | .ref r, some (.record _ attributes others given), .schema name =>
      Heap.put r (.record name attributes others given)
    | _, _, _ => throw (.classLayout new.name old.name)
  | _ => throw (.classType (h.typeName w))

/-- Gives an object another dictionary of attributes. -/
def changeAttributes (v w : Value) : Heap.Action Unit := do
  let h ← get
  match w, h.cell? w with
  | .ref attributes, some (.dict _) =>
    match v, h.cell? v with
    | .ref r, some (.builder kind _) => Heap.put r (.builder kind attributes)
    | .ref r, some (.store _) => Heap.put r (.store attributes)
    | .ref r, some (.record schema _ others given) =>
      Heap.put r (.record schema attributes others given)
    | _, _ => throw (noPlace h v "__dict__")
  | _, _ => throw (.attributesType (h.typeName w))

/-- Stores a value in the dictionary of attributes of an object. -/
def keep (attributes : Ref) (name : String) (w : Value) : Heap.Action Unit :=
  Heap.putEntry attributes (Key.ofText name) w

/-- Stores a value on an object of a class that keeps attributes, given their dictionary. -/
def keepOn (v : Value) (attributes : Ref) (name : String) (w : Value) : Heap.Action Unit := do
  if name = "__dict__" then changeAttributes v w
  else if name = "__weakref__" then
    let cls := (← get).className v
    throw (.fixedAttribute (cls.searchOrder.dropLast.getLastD cls).name name)
  else keep attributes name w

/-- Stores a value on a record under a private name. -/
def keepOnRecord (r : Ref) (schema : String) (attributes : Ref) (given : List Key) (name : String)
    (w : Value) : Heap.Action Unit := do
  if computedNames.contains name then throw (.computedAttribute schema name)
  else if name = "__pydantic_extra__" then
    match w, (← get).cell? w with
    | .ref others, some (.dict _) => Heap.put r (.record schema attributes (some others) given)
    | _, _ => Heap.put r (.record schema attributes none given)
  else keepOn (.ref r) attributes name w

/-- Stores a value on a class, which keeps none but answers for its constants. -/
def placeOnClass (cls : ClassName) (name : String) : Heap.Action Unit := do
  if isPlain cls then throw (.fixedClass cls.name name)
  else if cls = .featureState && FeatureState.all.any (·.constant == name) then
    throw (.fixedState name)
  else pure ()

/-- Stores a value on an object under a name, whatever its class makes of names. -/
def place (v : Value) (name : String) (w : Value) : Heap.Action Unit := do
  let h ← get
  if name = "__class__" then changeClass v w
  else
    match v with
    | .ref r =>
      match h.read r with
      | some (.map _) =>
        if name = "_data" then Heap.put r (.map w) else throw (noPlace h v name)
      | some (.builder _ attributes) => keepOn v attributes name w
      | some (.store attributes) =>
        if name.startsWith "__" then keepOn v attributes name w else Store.assign attributes name w
      | some (.record schema attributes _ given) =>
        keepOnRecord r schema attributes given name w
      | some (.field owner own) =>
        if name = "_builder" then Heap.put r (.field w own)
        else if name = "_name" then Heap.put r (.field owner w)
        else throw (noPlace h v name)
      | _ => throw (noPlace h v name)
    | .classOf cls => placeOnClass cls name
    | .feature _ =>
      if name = "value" || name = "name" then throw (.fixedStateAttribute name)
      else if isPrivate name then pure ()
      else throw (noPlace h v name)
    | _ => throw (noPlace h v name)

/-- Takes an attribute away from an object, whatever its class makes of names. -/
def remove (v : Value) (name : String) : Heap.Action Unit := do
  let h ← get
  match v, (h.cell? v).bind Cell.attributes? with
  | _, some attributes =>
    let entries := h.entriesAt attributes
    if entries.has (Key.ofText name) then
      Heap.putEntries attributes (entries.erase (Key.ofText name))
    else throw (.noAttribute (h.typeName v) name)
  | _, none => throw (noPlace h v name)

/-! ## Storing as the class says -/

/-- Stores a value on a record. -/
def setOnRecord (r : Ref) (schema : String) (attributes : Ref) (others : Option Ref)
    (given : List Key) (name : String) (w : Value) : Heap.Action Unit := do
  let key := Key.ofText name
  let schema? := Schema.named? schema
  if isPrivate name then place (.ref r) name w
  else if computedNames.contains name then throw (.computedAttribute schema name)
  else if schema?.any (·.hasField name) then
    keep attributes name w
    let given := if given.any (· == key) then given else given ++ [key]
    Heap.put r (.record schema attributes others given)
  else if !(schema?.any (·.keepsOthers)) then throw (.noField schema name)
  else
    match classAttribute (.schema schema) name, others with
    | .ok _, _ => keep attributes name w
    | .error _, some entries => Heap.putEntry entries key w
    | .error _, none => throw (.noItemAssignment "NoneType")

/-- Stores a value on an object under a name. -/
def setAttribute (v : Value) (name : String) (w : Value) : Heap.Action Unit := do
  match v, (← get).cell? v with
  | .ref r, some (.map _) =>
    if isPrivate name then place v name w else setMapItem r (.ofText name) w
  | _, some (.builder _ _) =>
    if isPrivate name then place v name w else discard (Builder.set v (.ofText name) w)
  | .ref r, some (.record schema attributes others given) =>
    setOnRecord r schema attributes others given name w
  | _, _ => place v name w

/-- Takes an attribute away from a record. -/
def removeFromRecord (r : Ref) (schema : String) (attributes : Ref) (others : Option Ref)
    (name : String) : Heap.Action Unit := do
  let key := Key.ofText name
  let isField := (Schema.named? schema).any (·.hasField name)
  let further := (← get).otherEntries others
  match others, further.has key && !isField with
  | some d, true => Heap.putEntries d (further.erase key)
  | _, _ => do
    if isField || ((← get).entriesAt attributes).has key then remove (.ref r) name
    else throw (.noRecordAttribute schema name)

/-- Takes an attribute away from an object. -/
def removeAttribute (v : Value) (name : String) : Heap.Action Unit := do
  match v, (← get).cell? v with
  | .ref r, some (.record schema attributes others _) =>
    removeFromRecord r schema attributes others name
  | _, _ => remove v name

/-- Stores a value on an object under a name, by what the object has to store values. -/
def assign (call : Caller κ) (v : Value) (name : String) (w : Value) : Action κ Unit := do
  if (Builder.kind? (← get).heap v).isSome && !isPrivate name then
    discard (Builder.storeIn call v (.ofText name) w)
  else Action.onHeap (setAttribute v name w)

end PageMeta.Object
