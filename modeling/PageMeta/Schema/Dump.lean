import PageMeta.Object.Send
import PageMeta.Schema.Instance
import PageMeta.Schema.Selection
import PageMeta.Text.Utf8

/-!
# Records as plain data

What a record and the values in it come to as plain data: records become dictionaries of their
fields, and of their further entries if the schema keeps those.

For a document there is no more than a document can hold: byte strings become texts, tuples lists,
and keys texts.  What has no place in a document is handed to a fallback, or complained about.

* `dump` gives a value as plain data, in a manner of dumping.
* `Dumped.build` makes the plain data, `Dumped.document` is its tree.
-/

namespace PageMeta.Schema

variable {κ : Type}

/-- A manner of dumping. -/
structure DumpManner where
  /-- Whether the data is for a document. -/
  forDocument : Bool := false
  /-- Whether fields that were left to their defaults are left out. -/
  skipsUnset : Bool := false
  /-- Whether fields that are equal to their defaults are left out. -/
  skipsDefaults : Bool := false
  /-- Whether absent values of records are left out. -/
  skipsAbsent : Bool := false
  /-- What is called on a value that is no data. -/
  fallback : Value := .none

/-- Plain data that is yet to be made. -/
inductive Dumped where
  | leaf (v : Value)
  | list (items : List Dumped)
  | tuple (items : List Dumped)
  | map (entries : List (Key × Dumped))

instance : Inhabited Dumped := ⟨.leaf .none⟩

namespace Dumped

mutual

/-- Makes plain data. -/
def build : Dumped → Heap.Action Value
  | .leaf v => Heap.settle v
  | .list items => do
    let values ← buildList items
    Heap.newList values
  | .tuple items => do
    let values ← buildList items
    Heap.newTuple values
  | .map entries => do
    let values ← buildEntries entries
    Heap.newDict (Entries.ofList values)

/-- Makes the items of plain data. -/
def buildList : List Dumped → Heap.Action (List Value)
  | [] => pure []
  | d :: rest => do
    let v ← build d
    let vs ← buildList rest
    return v :: vs

/-- Makes the entries of plain data. -/
def buildEntries : List (Key × Dumped) → Heap.Action (List (Key × Value))
  | [] => pure []
  | (key, d) :: rest => do
    let k ← Heap.settleKey key
    let v ← build d
    let others ← buildEntries rest
    return (k, v) :: others

end

mutual

/-- The tree of a document. -/
def document : Dumped → Tree String
  | .leaf v => .leaf v
  | .list items | .tuple items => .list (documentList items)
  | .map entries => .map (documentEntries entries)

/-- The trees of the items of a document. -/
def documentList : List Dumped → List (Tree String)
  | [] => []
  | d :: rest => document d :: documentList rest

/-- The trees of the entries of a document. -/
def documentEntries : List (Key × Dumped) → List (String × Tree String)
  | [] => []
  | (key, d) :: rest => (key.value.text?.getD "", document d) :: documentEntries rest

end

end Dumped

/-! ## Scalars -/

/-- The text of bytes in a document. -/
def documentBytes (bs : List UInt8) : Except Error String :=
  match Text.decode bs with
  | .ok s => .ok s
  | .error fault => .error (.bytesNotText fault)

/-- The text of a key in a document. -/
def documentKey (h : Heap) : Key → Except Error String
  | .atom v =>
    match v with
    | .text s _ => .ok s
    | .feature state => .ok state.text
    | .none | .int _ _ | .real _ _ => .ok (h.display v)
    | .bool b => .ok (if b then "true" else "false")
    | .bytes bs _ => documentBytes bs
    | _ => .error (.notData (h.className v).written)
  | .tuple _ keys => String.intercalate "," <$> documentKeys h keys
where
  /-- The texts of keys in a document. -/
  documentKeys (h : Heap) : List Key → Except Error (List String)
    | [] => .ok []
    | k :: rest => do
      let s ← documentKey h k
      let others ← documentKeys h rest
      return s :: others

/-- Whether a value is a scalar that a document can hold as it is. -/
def isDocumentScalar : Value → Bool
  | .none | .bool _ | .int _ _ | .real _ _ | .text _ _ => true
  | _ => false

/-! ## Parts -/

/-- The selected parts of a sequence, from the item with number `n` on. -/
def dumpItems (dump : Selection → Value → Action κ Dumped) (selection : Selection) :
    Nat → List Value → Action κ (List Dumped)
  | _, [] => pure []
  | n, v :: rest => do
    let own ← match ← Action.onHeap (selection.fate (.atom (.ofInt n))) with
      | .left => pure []
      | .taken inner => (fun d => [d]) <$> dump inner v
    let others ← dumpItems dump selection (n + 1) rest
    return own ++ others

/-- The key of an entry as plain data. -/
def dumpKey (manner : DumpManner) (h : Heap) (key : Key) : Except Error Key :=
  if manner.forDocument then (Key.atom ∘ Value.newText) <$> documentKey h key else .ok key

/-- The selected entries of a dictionary. -/
def dumpEntries (manner : DumpManner) (dump : Selection → Value → Action κ Dumped)
    (selection : Selection) : Entries Key Value → Action κ (List (Key × Dumped))
  | [] => pure []
  | (key, v) :: rest => do
    let own ← match ← Action.onHeap (selection.fate key) with
      | .left => pure []
      | .taken inner => do
        let name ← Action.ask fun h => dumpKey manner h key
        let d ← dump inner v
        pure [(name, d)]
    let others ← dumpEntries manner dump selection rest
    return own ++ others

/-- Whether a value is equal to the default of a field. -/
def isDefault (h : Heap) (v : Value) : SchemaField → Bool
  | .mk _ _ .required => false
  | .mk _ shape default =>
    match makeDefault (instantiate shape) default h with
    | .ok w made => made.same v w
    | .error _ _ => false

/-- The selected fields of a record. -/
def dumpFields (manner : DumpManner) (dump : Selection → Value → Action κ Dumped)
    (selection : Selection) (schema : RecordSchema) :
    Entries Key Value → Action κ (List (Key × Dumped))
  | [] => pure []
  | (key, v) :: rest => do
    let own ←
      if manner.skipsAbsent && v.isNone then pure []
      else
        match ← Action.onHeap (selection.fate key), schema.fields.find? fun f =>
            key == Key.ofText f.name with
        | .taken inner, some field =>
          if manner.skipsDefaults && isDefault (← get).heap v field then pure []
          else do
            let d ← dump inner v
            pure [(Key.ofText field.name, d)]
        | _, _ => pure []
    let others ← dumpFields manner dump selection schema rest
    return own ++ others

/-- The attributes of a record that may be dumped. -/
def dumpedAttributes (h : Heap) (manner : DumpManner) (attributes : Ref) (given : List Key) :
    Entries Key Value :=
  if manner.skipsUnset then (h.entriesAt attributes).filter fun p => given.any (· == p.1)
  else h.entriesAt attributes

/-- The further entries of a record that may be dumped. -/
def dumpedOthers (h : Heap) (manner : DumpManner) (schema : RecordSchema) (others : Option Ref) :
    Entries Key Value :=
  if schema.keepsOthers then
    (h.otherEntries others).filter fun p => !(manner.skipsAbsent && p.2.isNone)
  else []

/-! ## Values -/

/-- A value that has no parts as plain data. -/
def dumpScalar (call : Caller κ) (manner : DumpManner) (again : Value → Action κ Dumped)
    (v : Value) : Action κ Dumped := do
  match v, manner.forDocument, manner.fallback with
  | .feature state, true, _ => return .leaf (.ofText state.text)
  | .bytes bs _, true, _ => (Dumped.leaf ∘ Value.newText) <$> Action.ask fun _ => documentBytes bs
  | .feature _, _, _ | .bytes _ _, _, _ => return .leaf v
  | _, forDocument, fallback =>
    if isDocumentScalar v then return .leaf v
    else if !fallback.isNone then again (← call fallback (.of [v]))
    else if forDocument then throw (.notData ((← get).heap.className v).written)
    else return .leaf v

/-- A value as plain data, down to `depth` levels. -/
def dumpTo (call : Caller κ) (manner : DumpManner) :
    Nat → Selection → Value → Action κ Dumped
  | 0, _, _ => throw .tooDeep
  | depth + 1, selection, v => do
    let h := (← get).heap
    let inner := dumpTo call manner depth
    let sequence := fun items => do
      let selection ← Action.onHeap (selection.ofItems (List.length items))
      dumpItems inner selection 0 items
    match h.cell? v with
    | some (.list items) => .list <$> sequence items
    | some (.tuple items) =>
      (if manner.forDocument then Dumped.list else Dumped.tuple) <$> sequence items
    | some (.dict entries) => .map <$> dumpEntries manner inner selection entries
    | some (.record name attributes others given) =>
      match named? name with
      | some schema => do
        let fields ← dumpFields manner inner selection schema
          (dumpedAttributes h manner attributes given)
        let further ← dumpEntries manner inner selection (dumpedOthers h manner schema others)
        return .map (fields ++ further)
      | none => return .leaf v
    | _ => dumpScalar call manner (inner .all) v

/-- A value as plain data. -/
def dump (call : Caller κ) (manner : DumpManner) (selection : Selection) (v : Value) :
    Action κ Dumped := do dumpTo call manner (2 * (← get).heap.depth) selection v

end PageMeta.Schema
