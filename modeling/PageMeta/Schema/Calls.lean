import PageMeta.Json.Document
import PageMeta.Json.Parser
import PageMeta.Json.Printer
import PageMeta.Object.Binding
import PageMeta.Schema.Check
import PageMeta.Schema.Dump
import PageMeta.Schema.Record

/-!
# Calls of functions of records

Functions of schemas read values as records, from a program, from a document or from a form; functions
of records give them as plain data or as documents, and copy them.

* `callSchemaFunction` calls a function that is about a schema.
* `callFunction` calls any function of records.
-/

namespace PageMeta.Schema

variable {κ : Type}

/-- The schema that a class stands for. -/
def schemaOf (v : Value) : Action κ RecordSchema := do
  match v with
  | .classOf (.schema name) =>
    match named? name with
    | some schema => return schema
    | none => throw (.missingName name)
  | .classOf .record => throw (.misuse .bareRecord)
  | _ => throw (.noAttribute ((← get).heap.typeName v) "__pydantic_validator__")

/-! ## Reading -/

/-- What is to become of surplus entries, as a caller tells it. -/
def surplusOf (v : Value) : Except Error (Option Surplus) :=
  match v.text? with
  | some "allow" => .ok (some .kept)
  | some "ignore" => .ok (some .dropped)
  | some "forbid" => .ok (some .refused)
  | some name => .error (.misuse (.unknownSurplus name))
  | none => .ok none

/-- The manner of reading that a caller asks for, from the arguments for strictness, for surplus
entries, for the context and for the ways to name fields. -/
def mannerOf (h : Heap) (source : Source) (options : List Value) : Except Error Manner := do
  match options with
  | strict :: extra :: _ :: byAlias :: byName :: rest => do
    if byAlias = .bool false && byName != .bool true then throw (.misuse .noNames)
    let surplus? ← surplusOf extra
    return { source, isStrict := h.truth strict, surplus?,
             takesAttributes := rest.head?.any h.truth }
  | _ => return { source }

/-- The bytes of a value that can be a document. -/
def documentOf? : Value → Option (List UInt8)
  | .bytes bs _ => some bs
  | v => v.text?.map fun s => s.toUTF8.toList

/-- Builds a document; its texts come from the pool. -/
def buildDocument (t : Tree String) : Heap.Action Value :=
  let pooled : Value → Value
    | .text s _ => pooledText s
    | v => v
  Heap.build .plain ((t.mapLeaves pooled).mapKeys fun s => Key.atom (pooledText s))

/-- Reads a value that should be a document as a record. -/
def readDocument (manner : Manner) (schema : RecordSchema) (v : Value) : Heap.Action Value := do
  let refuse := fun kind => do
    throw (Error.mismatch ⟨schema.name, [issue (← get) kind v]⟩)
  match documentOf? v with
  | none => refuse .notDocument
  | some bytes =>
    match Json.Document.read bytes with
    | .ok t => do
      let whole ← buildDocument t
      read manner schema whole
    | .error message => refuse (.documentFault message)

/-- Reads a value that should be a form as a record. -/
def readForm (manner : Manner) (schema : RecordSchema) (v : Value) : Heap.Action Value := do
  let h ← get
  if isForeign h manner v then throw (.mismatch ⟨schema.name, [issue h .notText v]⟩)
  else read manner schema v

/-! ### Reading raw texts -/

/-- Why a text is no raw record, with the code of the complaint. -/
def rawFault : Json.Refusal → List Char → String × String
  | .fault reason rest, text =>
    ("value_error.jsondecode", (Error.notJson (Json.Refusal.locate text reason rest)).message)
  | .numberTooLong digits, _ => ("value_error", (Error.numberTooLong digits).message)

/-- A raw text as a tree, or the code and the text of a complaint. -/
def rawTree (h : Heap) (v : Value) : Except (String × String) (Tree String) :=
  let ofText := fun s : String =>
    match Json.readDocument s.toList with
    | .ok t => .ok t
    | .error refusal => .error (rawFault refusal s.toList)
  match v, v.text? with
  | .bytes bs _, _ =>
    match Text.decode bs with
    | .ok s => ofText s
    | .error fault => .error ("value_error.unicodedecode", (Error.notUtf8 fault).message)
  | _, some s => ofText s
  | _, none =>
    .error ("type_error",
      "the JSON object must be str, bytes or bytearray, not " ++ h.typeName v)

/-- Refuses a value that should be a raw record. -/
def refuseRaw {α : Type} (schema : RecordSchema) (v : Value) (fault : String × String) :
    Heap.Action α := do
  let found := issue (← get) (.custom fault.1 fault.2) v
  throw (.mismatch ⟨schema.name, [{ found with location := ["__root__"] }]⟩)

/-- Reads a raw text as a record; what kind of content it is can be told. -/
def readRaw (schema : RecordSchema) (content v : Value) : Heap.Action Value := do
  match content.text? with
  | some type =>
    if !(type.endsWith "json" || type.endsWith "javascript") then
      refuseRaw schema v ("type_error", (Misuse.unknownContent type).text)
  | none => pure ()
  match rawTree (← get) v with
  | .ok t => do read .usual schema (← Heap.buildText .plain t)
  | .error fault => refuseRaw schema v fault

/-! ## Giving plain data -/

/-- The manner of dumping and the selection that a caller asks for, from the arguments for what is
included and excluded and for what is left out. -/
def dumpingOf (h : Heap) (forDocument : Bool) (options : List Value) : DumpManner × Selection :=
  match options with
  | included :: excluded :: _ :: _ :: unset :: defaults :: absent :: _ :: _ :: _ :: fallback :: _ =>
    ({ forDocument, skipsUnset := h.truth unset, skipsDefaults := h.truth defaults,
       skipsAbsent := h.truth absent, fallback }, ⟨included, excluded⟩)
  | _ => ({ forDocument }, .all)

/-- The manner of dumping and the selection of the short form of a call. -/
def shortDumpingOf (h : Heap) (forDocument : Bool) (options : List Value) :
    DumpManner × Selection :=
  match options with
  | included :: excluded :: _ :: unset :: defaults :: absent :: _ =>
    ({ forDocument, skipsUnset := h.truth unset, skipsDefaults := h.truth defaults,
       skipsAbsent := h.truth absent }, ⟨included, excluded⟩)
  | _ => ({ forDocument }, .all)

/-- A record as plain data. -/
def dumpData (call : Caller κ) (v : Value) (dumping : DumpManner × Selection) :
    Action κ Value := do
  let dumped ← dump call dumping.1 dumping.2 v
  Action.onHeap dumped.build

/-- A record as a written document. -/
def dumpText (call : Caller κ) (v : Value) (style : Json.Style)
    (dumping : DumpManner × Selection) : Action κ Value := do
  let dumped ← tryCatch (dump call dumping.1 dumping.2 v) fun
    | .bytesNotText fault => throw (.unwritableBytes fault)
    | e => throw e
  return .newText (style.write dumped.document)

/-- The indentation that a caller asks for. -/
def indentOf? (v : Value) : Option Nat := v.integer?.map Int.toNat

/-! ## Copying -/

/-- The keys that a choice names; the choice has to be a dictionary. -/
def chosenKeys (h : Heap) (choice : Value) : Entries Key Value :=
  match h.cell? choice with
  | some (.dict entries) => entries
  | _ => []

/-- The entries of a record that a copy takes over. -/
def copiedEntries (h : Heap) (entries : Entries Key Value) (included excluded : Value) :
    Entries Key Value :=
  entries.filter fun p =>
    (included.isNone || (chosenKeys h included).has p.1) &&
      !((chosenKeys h excluded).get? p.1).any isWhole

/-- The changes that a caller asks for, by name. -/
def namedChanges (call : Caller κ) (v : Value) : Action κ (Entries Key Value) := do
  if !(← get).heap.truth v then return []
  let type := (← get).heap.typeName v
  match Object.lookup (← get).heap v "keys" with
  | .error _ => throw (.plain (.notMapping "dict" type))
  | .ok _ => do
    let entries ← Object.updateEntries call v
    if entries.all fun p => p.1.value.text?.isSome then return Entries.ofList entries
    else throw (.plain .namesNotTexts)

/-- A copy of a record with some of its entries, and with changes. -/
def copySelected (call : Caller κ) (v included excluded changes : Value) (detached : Bool) :
    Action κ Value := do
  match (← get).heap.cell? v with
  | some (.record schema attributes others given) => do
    let h := (← get).heap
    let further := h.otherEntries others
    let own := copiedEntries h (h.entriesAt attributes) included excluded
    let rest := copiedEntries h further included excluded
    let changes ← namedChanges call changes
    let isFurther := fun p : Key × Value => further.has p.1
    let fields := own.putAll (changes.filter fun p => !isFurther p)
    let kept := rest.putAll (changes.filter isFurther)
    let left := chosenKeys h excluded
    let given := (given ++ (changes.keys.filter fun k => !given.any (· == k))).filter fun k =>
      !left.has k
    Action.onHeap do
      let attributes ← Heap.alloc (.dict fields)
      let others ← match others with
        | some _ => some <$> Heap.alloc (.dict kept)
        | none => pure none
      let copied := Value.ref (← Heap.alloc (.record schema attributes others given))
      if detached then Heap.detach copied else return copied
  | _ => throw (.noAttribute ((← get).heap.typeName v) "__dict__")

/-! ## Calling -/

/-- Makes a record again, of other values. -/
def restart (v : Value) (given : Entries Key Value) : Heap.Action Value := do
  match v, (← get).cell? v with
  | .ref r, some (.record name _ _ _) =>
    match named? name with
    | some schema => do
      let made ← read .usual schema (← Heap.newDict given)
      match (← get).cell? made with
      | some cell => Heap.put r cell
      | none => pure ()
      return .none
    | none => return .none
  | _, _ => throw (.noAttribute ((← get).typeName v) "__pydantic_validator__")

/-- The keys that a caller tells to be given. -/
def givenKeys? (v : Value) : Heap.Action (Option (List Key)) := do
  match v with
  | .none => return none
  | _ => do
    let values ← Heap.elements v
    let keys ← Heap.ask fun h => values.mapM h.toKey
    return some keys

/-- Calls a function that is about a schema. -/
def callSchemaFunction (name : String) (bound : Bound) : Action κ Value := do
  let h := (← get).heap
  match name, bound.values with
  | "model_validate", [cls, v] => do
    let manner ← Action.ask fun h => mannerOf h .program bound.named
    let schema ← schemaOf cls
    Action.onHeap (read manner schema v)
  | "parse_obj", [cls, v] | "validate", [cls, v] => do
    let schema ← schemaOf cls
    Action.onHeap (read .usual schema v)
  | "model_validate_json", [cls, v] => do
    let manner ← Action.ask fun h => mannerOf h .document bound.named
    let schema ← schemaOf cls
    Action.onHeap (readDocument manner schema v)
  | "model_validate_strings", [cls, v] => do
    let manner ← Action.ask fun h => mannerOf h .form bound.named
    let schema ← schemaOf cls
    Action.onHeap (readForm manner schema v)
  | "parse_raw", [cls, v] => do
    let schema ← schemaOf cls
    Action.onHeap (readRaw schema (bound.named.headD .none) v)
  | "from_orm", _ => throw (.misuse .attributesNotSet)
  | "model_construct", [cls, given] | "construct", [cls, given] => do
    let schema ← schemaOf cls
    Action.onHeap do assemble schema bound.options (← givenKeys? given)
  | "model_parametrized_name", _ => throw (.misuse .noParameters)
  | "model_rebuild", _ => return if bound.named.head?.any h.truth then .bool true else .none
  | "update_forward_refs", _ =>
    if bound.options.isEmpty then return .none else throw (.misuse .localNamesGiven)
  | _, _ => throw (Object.unknownFunction .record name)

/-- What a function of records asks of an object first, by which other objects are told from
records. -/
def firstNeed : String → String
  | "model_copy" => "__copy__"
  | "copy" => "__dict__"
  | "__iter__" | "__repr__" | "__str__" => "__dict__"
  | _ => "__pydantic_serializer__"

/-- Calls a function that is about a record. -/
def callRecordFunction (call : Caller κ) (v : Value) (name : String) (bound : Bound) :
    Action κ Value := do
  let h := (← get).heap
  match name, bound.values, bound.named with
  | "model_dump", _, mode :: options =>
    dumpData call v (dumpingOf h (mode.text? == some "json") options)
  | "dict", _, options => dumpData call v (shortDumpingOf h false options)
  | "model_dump_json", _, indent :: ascii :: options =>
    dumpText call v (.record (indentOf? indent) (h.truth ascii)) (dumpingOf h true options)
  | "json", _, options => do
    let isGiven := fun v => v != Object.undefined
    if (options.drop 6).head?.any isGiven then throw (.misuse .encoderGiven)
    if (options.drop 7).head?.any isGiven then throw (.misuse .nestingGiven)
    if !bound.options.isEmpty then throw (.misuse .writingOptionsGiven)
    dumpText call v (.record none false) (shortDumpingOf h true options)
  | "model_copy", _, [changes, deep] => changed call v changes (h.truth deep)
  | "copy", _, [included, excluded, changes, deep] =>
    copySelected call v included excluded changes (h.truth deep)
  | "__copy__", _, _ => Action.onHeap (copyFlat v)
  | "__deepcopy__", _, _ => Action.onHeap (copy v true)
  | "model_post_init", _, _ => return .none
  | "__eq__", [_, other], _ => return .bool (h.same v other)
  | "__repr__", _, _ => return .newText (h.written v)
  | "__str__", _, _ => return .newText (h.display v)
  | "__iter__", _, _ => Action.onHeap do Heap.newList (← Heap.elements v)
  | "__setattr__", [_, name, value], _ => Action.onHeap do
    Object.setAttribute v (← Heap.ask fun h => Object.nameOf h name).text value
    return .none
  | "__delattr__", [_, name], _ => Action.onHeap do
    Object.removeAttribute v (← Heap.ask fun h => Object.nameOf h name).text
    return .none
  | "__getattr__", [_, name], _ => Action.onHeap do
    Object.getAttribute v (← Heap.ask fun h => Object.nameOf h name)
  | _, _, _ => throw (Object.unknownFunction .record name)

/-- Calls a function of records. -/
def callFunction (call : Caller κ) (name : String) (bound : Bound) : Action κ Value := do
  let v := bound.values.headD .none
  if name = "__init__" then Action.onHeap (restart v bound.options)
  else if ClassName.schemaFunctions.contains name then callSchemaFunction name bound
  else
    match (← get).heap.cell? v with
    | some (.record _ _ _ _) => callRecordFunction call v name bound
    | _ => throw (.noAttribute ((← get).heap.typeName v) (firstNeed name))

/-- Makes a record of values by name. -/
def construct (name : String) (values : Entries Key Value) : Action κ Value := do
  let schema ← schemaOf (.classOf (.schema name))
  Action.onHeap do read .usual schema (← Heap.newDict values)

end PageMeta.Schema
