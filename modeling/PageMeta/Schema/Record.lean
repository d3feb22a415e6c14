import PageMeta.Heap.Copy
import PageMeta.Object.Mapping
import PageMeta.Schema.Instance

/-!
# Records

What records offer besides being read and dumped.

* `copy` is a record with the same values, `changed` one with some of them changed.
* `assemble` makes a record of given values without checking them.
-/

namespace PageMeta.Schema

variable {κ : Type}

/-- A new dictionary with the same entries. -/
def copyDict (r : Ref) : Heap.Action Ref := do Heap.alloc (.dict ((← get).entriesAt r))

/-- A record with the same values. -/
def copyFlat (v : Value) : Heap.Action Value := do
  match (← get).cell? v with
  | some (.record schema attributes others given) =>
    let attributes ← copyDict attributes
    let others ← match others with
      | some r => some <$> copyDict r
      | none => pure none
    return .ref (← Heap.alloc (.record schema attributes others given))
  | _ => throw (.noAttribute ((← get).typeName v) "__pydantic_extra__")

/-- A record with the same values, or with detached copies of them. -/
def copy (v : Value) (detached : Bool) : Heap.Action Value :=
  if detached then Heap.detach v else copyFlat v

/-- Whether a key is a field of the schema of a name. -/
def isField (schema : String) (key : Key) : Bool :=
  (fieldNames schema).any fun name => key == Key.ofText name

/-- Whether the schema of a name keeps entries that it has no field for. -/
def keepsOthers (schema : String) : Bool := (named? schema).any (·.keepsOthers)

/-- Adds keys to those of a record that were given. -/
def markGiven (r : Ref) (keys : List Key) : Heap.Action Unit := do
  match (← get).read r with
  | some (.record schema attributes others given) =>
    let added := keys.filter fun k => !given.any (· == k)
    Heap.put r (.record schema attributes others (given ++ added))
  | _ => pure ()

/-- The dictionary of the further entries of a record; makes it if there is none. -/
def othersOf (r : Ref) : Heap.Action Ref := do
  match (← get).read r with
  | some (.record schema attributes none given) => do
    let made ← Heap.alloc (.dict [])
    Heap.put r (.record schema attributes (some made) given)
    return made
  | some (.record _ _ (some others) _) => return others
  | _ => return r

/-- Stores entries in a record that keeps others, without checking them. -/
def storeAll (r : Ref) (schema : String) (attributes : Ref) :
    Entries Key Value → Heap.Action Unit
  | [] => pure ()
  | (key, v) :: rest => do
    if isField schema key then Heap.putEntry attributes key v
    else Heap.putEntry (← othersOf r) key v
    storeAll r schema attributes rest

/-- Changes the values of a record, without checking them. -/
def change (call : Caller κ) (v changes : Value) : Action κ Unit := do
  match v, (← get).heap.cell? v with
  | .ref r, some (.record schema attributes _ _) =>
    if keepsOthers schema then
      let items ← Object.send call changes "items" {}
      let entries ← Action.onHeap (Object.unpackPairs items)
      Action.onHeap (storeAll r schema attributes entries)
    else
      let entries ← Object.updateEntries call changes
      Action.onHeap (Heap.putEntries attributes
        (((← get).heap.entriesAt attributes).putAll entries))
    let keys ← Action.onHeap (Heap.elements (← Object.send call changes "keys" {}))
    let keys ← Action.ask fun h => keys.mapM h.toKey
    Action.onHeap (markGiven r keys)
  | _, _ => pure ()

/-- A record with some of its values changed, or with detached copies of the others. -/
def changed (call : Caller κ) (v changes : Value) (detached : Bool) : Action κ Value := do
  let copied ← Action.onHeap (copy v detached)
  if (← get).heap.truth changes then change call copied changes
  return copied

/-- The values of fields, given or by default; a field that must be given can be missing. -/
def assembleFields (given : Entries Key Value) :
    List SchemaField → Heap.Action (Entries String Value)
  | [] => pure []
  | .mk name shape default :: rest => do
    let own ← match given.get? (Key.ofText name), default with
      | some v, _ => pure [(name, v)]
      | none, .required => pure []
      | none, _ => do
        let v ← makeDefault (instantiate shape) default
        pure [(name, v)]
    let others ← assembleFields given rest
    return own ++ others

/-- Makes a record of given values without checking them.  The keys that count as given can be
told. -/
def assemble (schema : RecordSchema) (values : Entries Key Value) (given? : Option (List Key)) :
    Heap.Action Value := do
  let fields ← assembleFields values schema.fields
  let own := values.filter fun p => isField schema.name p.1
  let further := values.filter fun p => !isField schema.name p.1
  newRecord schema.name fields (if schema.keepsOthers then some further else none)
    (given?.getD (own.map (·.1)))

end PageMeta.Schema
