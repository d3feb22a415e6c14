import PageMeta.Object.Lookup
import PageMeta.Schema.Instance
import PageMeta.Schema.Scalar

/-!
# Checking values against schemas

`check` reads a value as the shape it should have, in a manner of reading.  It gives a value of that
shape or all issues it found, each with its way from the outside in.  Fields are checked in the
order of the schema, then the entries that the schema has no field for.

A record of the right schema is taken as it is.  Lists, dictionaries and records are made anew;
what a shape says nothing about is handed on unchanged.

In a form every value is a text or a dictionary.  The first one met that is neither is the only
issue of the dictionary it lies in.
-/

namespace PageMeta.Schema

/-- The issues found, or what was read. -/
abbrev Checked (α : Type) := Except (List Issue) α

/-- An issue with a value itself. -/
def issue (h : Heap) (kind : IssueKind) (v : Value) : Issue :=
  ⟨[], kind, Text.abbreviate 50 (h.written v), h.typeName v⟩

/-- A key as a step of a location: text as it is, truth values as numbers, anything else as it is
written. -/
def keyStep (h : Heap) : Key → String
  | .atom (.bool b) => if b then "1" else "0"
  | .atom v => v.text?.getD (h.written v)
  | k => h.written k.value

/-- The issues of a part, seen from outside. -/
def within (step : String) (issues : List Issue) : List Issue :=
  issues.map fun i => { i with location := step :: i.location }

/-- What reading a scalar found; what is about to be made is made. -/
def ofScalar (v : Value) (read : Except IssueKind Value) : Heap.Action (Checked Value) := do
  match read with
  | .ok w => .ok <$> Heap.settle w
  | .error kind => return .error [issue (← get) kind v]

/-- The issues of two parts together, or what was read from both. -/
def both {α β γ : Type} (f : α → β → γ) : Checked α → Checked β → Checked γ
  | .ok a, .ok b => .ok (f a b)
  | .ok _, .error js => .error js
  | .error is, .ok _ => .error is
  | .error is, .error js => .error (is ++ js)

/-! ## Lists and dictionaries -/

/-- Checks the items of a list as texts. -/
def checkTexts (manner : Manner) : Nat → List Value → Heap.Action (Checked (List Value))
  | _, [] => pure (.ok [])
  | n, v :: rest => do
    let first ← ofScalar v (readText manner 0 v)
    let others ← checkTexts manner (n + 1) rest
    return both (· :: ·) (first.mapError (within (Decimal.digitsOf n))) others

/-- The items of a value that can be read as a list. -/
def listItems (manner : Manner) (v : Value) : Heap.Action (Option (List Value)) := do
  match (← get).cell? v, manner.source, manner.isStrict with
  | some (.list items), .program, _ | some (.list items), .document, _ => return some items
  | some (.tuple items), .program, false => return some items
  | some (.map _), .program, false | some (.record _ _ _ _), .program, false
  | some (.liveKeys _), .program, false | some (.liveValues _), .program, false
  | some (.liveItems _), .program, false =>
    some <$> Heap.elements v
  | _, _, _ => return none

/-- The complaint about a value that is no list. -/
def Manner.notList (manner : Manner) : IssueKind :=
  if manner.source = .program then .notList else .notArray

/-- The complaint about a value that is no dictionary. -/
def Manner.notMapping (manner : Manner) : IssueKind :=
  if manner.source = .program then .notMapping else .notObject

/-- The complaint about a value that is no record. -/
def Manner.notRecord (manner : Manner) (schema : String) : IssueKind :=
  if manner.takesAttributes then .notAttributes
  else if manner.source = .program then .notRecord schema
  else .notRecordObject

/-- Checks a list of texts. -/
def checkList (manner : Manner) (v : Value) : Heap.Action (Checked Value) := do
  match ← listItems manner v with
  | some items =>
    match ← checkTexts manner 0 items with
    | .ok texts => .ok <$> Heap.newList texts
    | .error issues => return .error issues
  | none => return .error [issue (← get) manner.notList v]

/-- Whether a value has no place in a form. -/
def isForeign (h : Heap) (manner : Manner) (v : Value) : Bool :=
  if manner.source = .form then
    match h.cell? v with
    | some (.dict _) => false
    | _ => v.text?.isNone
  else false

/-- The issue with the first of some values that have no place in a form. -/
def foreignIssue? (h : Heap) (manner : Manner) (values : List Value) : Option Issue :=
  (values.find? (isForeign h manner)).map (issue h .notText)

/-- Checks a key of a dictionary that should have text keys. -/
def checkKey (manner : Manner) (k : Key) : Heap.Action (Checked Key) := do
  let step := keyStep (← get) k
  let read ← ofScalar k.value (readText manner 0 k.value)
  return (read.map Key.atom).mapError (within step ∘ within "[key]")

/-- Checks the entries of a dictionary, given the check of its values. -/
def checkEntries (manner : Manner) (checkItem : Value → Heap.Action (Checked Value)) :
    List (Key × Value) → Heap.Action (Checked (List (Key × Value)))
  | [] => pure (.ok [])
  | (k, v) :: rest => do
    let step := keyStep (← get) k
    let key ← checkKey manner k
    let item := (← checkItem v).mapError (within step)
    let others ← checkEntries manner checkItem rest
    return both (· :: ·) (both Prod.mk key item) others

/-- Checks a dictionary with text keys, given the check of its values. -/
def checkMapping (manner : Manner) (checkItem : Value → Heap.Action (Checked Value)) (v : Value) :
    Heap.Action (Checked Value) := do
  let h ← get
  match h.cell? v with
  | some (.dict entries) =>
    match foreignIssue? h manner (entries.map (·.2)) with
    | some found => return .error [found]
    | none =>
      match ← checkEntries manner checkItem entries with
      | .ok pairs => .ok <$> Heap.newDict (Entries.ofList pairs)
      | .error issues => return .error issues
  | _ => return .error [issue h manner.notMapping v]

/-! ## Records -/

/-- What holds the values of the fields of a record to be read. -/
inductive Origin where
  /-- The entries of a dictionary. -/
  | entries (entries : Entries Key Value)
  /-- The attributes of an object, and entries for those that it has not. -/
  | attributes (object : Value) (others : Entries Key Value)

/-- The value of a field. -/
def Origin.value? (name : String) : Origin → Heap.Action (Checked (Option Value))
  | .entries own => pure (.ok (own.get? (Key.ofText name)))
  | .attributes object others => do
    tryCatch ((.ok ∘ some) <$> Object.getAttribute object name) fun e => do
      if e.isMissingAttribute then return .ok (others.get? (Key.ofText name))
      else
        let fault := IssueKind.attributeFault (e.kind ++ ": " ++ e.message)
        return .error [issue (← get) fault object]

/-- Whether the attributes of a value can be fields of a record: plain data has none. -/
def hasFields (h : Heap) (v : Value) : Bool := (h.className v).place != "builtins"

/-- What holds the fields of a value, if it is read as a record at all. -/
def origin? (h : Heap) (manner : Manner) (v : Value) : Option Origin :=
  match h.cell? v with
  | some (.dict entries) => some (.entries entries)
  | some (.tuple [object, extras]) =>
    match h.cell? extras, manner.takesAttributes && hasFields h object with
    | some (.dict entries), true => some (.attributes object entries)
    | _, _ => none
  | _ => if manner.takesAttributes && hasFields h v then some (.attributes v []) else none

/-- The entries of a dictionary that a schema has no field for. -/
def Origin.surplus (schema : RecordSchema) : Origin → Entries Key Value
  | .entries own => own.filter fun p => !(p.1.value.text?.any schema.hasField)
  | .attributes _ _ => []

/-- The values that are read for a record, in the order in which they are looked at. -/
def Origin.values (schema : RecordSchema) (surplus : Surplus) (origin : Origin) : List Value :=
  match origin with
  | .entries own =>
    let fields := schema.fields.filterMap fun f => own.get? (Key.ofText f.name)
    let others := if surplus = .dropped then [] else origin.surplus schema
    fields ++ others.map (·.2)
  | .attributes _ _ => []

/-- Checks the entries that a schema has no field for, and gives those that are kept. -/
def checkSurplus (h : Heap) (surplus : Surplus) :
    Entries Key Value → Checked (Entries Key Value)
  | [] => .ok []
  | (k, v) :: rest =>
    let others := checkSurplus h surplus rest
    let fault := fun kind w => Except.error (within (keyStep h k) [issue h kind w])
    match surplus, k.value.text? with
    | .dropped, _ => others
    | _, none => both (· :: ·) (fault .keyNotText k.value) others
    | .refused, some _ => both (· :: ·) (fault .surplus v) others
    | .kept, some _ => both (· :: ·) (.ok (k, v)) others

/-- A key under which an entry is kept: a plain text. -/
def keptKey (k : Key) : Heap.Action Key :=
  match k.value with
  | .feature state => .atom <$> Heap.settle (pooledText state.text)
  | _ => pure k

/-- The entries that a record keeps beside its fields. -/
def keptEntries : Entries Key Value → Heap.Action (Entries Key Value)
  | [] => pure []
  | (k, v) :: rest => do
    let key ← keptKey k
    let others ← keptEntries rest
    return (key, v) :: others

/-- What becomes of the entries that a schema has no field for. -/
def Manner.surplusFor (manner : Manner) (keeps : Bool) : Surplus :=
  manner.surplus?.getD (if keeps then .kept else .dropped)

/-- A record of what was read.  The values that were given are marked by their keys. -/
def assembleRead (name : String) (surplus : Surplus) (fields : List (String × Value × Bool))
    (kept : Entries Key Value) : Heap.Action Value := do
  let kept ← keptEntries kept
  let given := (fields.filter (·.2.2)).map fun p => Key.ofText p.1
  newRecord name (fields.map fun p => (p.1, p.2.1))
    (if surplus = .kept then some kept else none) (given ++ kept.keys)

mutual

/-- Checks a value against a shape. -/
def check (manner : Manner) : Shape → Value → Heap.Action (Checked Value)
  | .anything, v => pure (.ok v)
  | .text least, v => ofScalar v (readText manner least v)
  | .flag, v => ofScalar v (.bool <$> readFlag manner v)
  | .integer least most, v =>
    ofScalar v ((readInteger manner v).bind (boundInteger least most))
  | .number least most, v =>
    ofScalar v ((readNumber manner v).bind (boundNumber least most))
  | .texts, v => checkList manner v
  | .mapping item, v => checkMapping manner (check manner item) v
  | .record schema, v => checkRecord manner schema v
  | .optional shape, v =>
    match v with
    | .none => pure (.ok .none)
    | _ => check manner shape v
  | .textOrMapping, v => do
    match ← ofScalar v (readText manner 0 v) with
    | .ok w => return .ok w
    | .error textIssues =>
      match ← checkMapping manner (fun w => pure (.ok w)) v with
      | .ok w => return .ok w
      | .error issues =>
        return .error (within "str" textIssues ++ within "dict[str,any]" issues)

/-- Checks a value against a schema. -/
def checkRecord (manner : Manner) : RecordSchema → Value → Heap.Action (Checked Value)
  | .mk name fields keeps, v => do
    let h ← get
    match h.cell? v with
    | some (.record schema _ _ _) =>
      if schema = name && manner.source = .program then return .ok v
    | _ => pure ()
    match origin? h manner v with
    | some origin =>
      let schema := RecordSchema.mk name fields keeps
      let surplus := manner.surplusFor keeps
      match foreignIssue? h manner (origin.values schema surplus) with
      | some found => return .error [found]
      | none =>
        let declared ← checkFields manner v origin fields
        match both Prod.mk declared (checkSurplus (← get) surplus (origin.surplus schema)) with
        | .ok (values, kept) => .ok <$> assembleRead name surplus values kept
        | .error issues => return .error issues
    | none => return .error [issue h (manner.notRecord name) v]

/-- Checks the fields of a record; `whole` is the value that holds them.  Tells of each value
whether it was given. -/
def checkFields (manner : Manner) (whole : Value) (origin : Origin) :
    List SchemaField → Heap.Action (Checked (List (String × Value × Bool)))
  | [] => pure (.ok [])
  | .mk name shape default :: rest => do
    let first ← match ← origin.value? name, default with
      | .error issues, _ => pure (.error issues)
      | .ok (some v), _ => (·.map (·, true)) <$> check manner shape v
      | .ok none, .required => pure (.error [issue (← get) .missing whole])
      | .ok none, _ => (fun w => .ok (w, false)) <$> makeDefault (instantiate shape) default
    let others ← checkFields manner whole origin rest
    return both (fun v vs => (name, v) :: vs) (first.mapError (within name)) others

end

/-- Reads a value as a record of a schema. -/
def read (manner : Manner) (schema : RecordSchema) (v : Value) : Heap.Action Value := do
  match ← checkRecord manner schema v with
  | .ok r => return r
  | .error issues => throw (.mismatch ⟨schema.name, issues⟩)

end PageMeta.Schema
