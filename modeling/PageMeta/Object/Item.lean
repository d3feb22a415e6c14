import PageMeta.AttributeMap.Basic

/-!
# Items

Reading and writing by key or index, membership, and adding to a list.

An attribute map answers every key, absent ones with the absent value.  A dictionary knows only
its keys, a sequence only its indices; negative indices count from the end.
-/

namespace PageMeta.Object

/-- How far from the front of a sequence of `size` items an index leads. -/
def offset? (size : Nat) (index : Int) : Option Nat :=
  if 0 ≤ index then (if index < size then some index.toNat else none)
  else if -index ≤ size then some (size - (-index).toNat) else none

/-- An index never leads out of the sequence. -/
theorem offset?_lt {size : Nat} {index : Int} {n : Nat} (h : offset? size index = some n) :
    n < size := by
  unfold offset? at h
  split at h
  · split at h
    · injection h with h; omega
    · cases h
  · split at h
    · injection h with h; omega
    · cases h

/-- An index into a sequence, as a number of 64 bits; `noun` names the sequence in complaints. -/
def readIndex (h : Heap) (noun : String) (index : Value) : Except Error Int :=
  match index.integer? with
  | none => .error (.indexType noun (h.typeName index))
  | some i =>
    if -0x8000000000000000 ≤ i ∧ i < 0x8000000000000000 then .ok i
    else .error (.indexTooLarge (h.typeName index))

/-- The item at an index of a sequence; `noun` names the sequence in complaints. -/
def itemAt {α : Type} (h : Heap) (noun : String) (items : List α) (index : Value) :
    Except Error α := do
  let i ← readIndex h noun index
  match (offset? items.length i).bind (items[·]?) with
  | some item => return item
  | none => .error (.indexRange (if noun = "byte" then "index" else noun ++ " index"))

/-- The value of a key of a dictionary. -/
def dictItem (h : Heap) (entries : Entries Key Value) (key : Value) : Except Error Value := do
  match entries.get? (← h.toKey key) with
  | some v => return v
  | none => .error (.keyAbsent (h.written key))

/-- The state of a feature that a constant names. -/
def stateNamed (h : Heap) (key : Value) : Except Error Value := do
  discard (h.toKey key)
  match FeatureState.all.find? fun state => key.text? == some state.constant with
  | some state => return .feature state
  | none => .error (.keyAbsent (h.written key))

/-- The item of a class for a parameter. -/
def classItem (h : Heap) (cls : ClassName) (key : Value) : Except Error Value := do
  match cls with
  | .featureState => stateNamed h key
  | .record | .schema _ => do
    discard (h.toKey key)
    throw (.schemaNotGeneric (if cls = .record then none else some cls.path))
  | _ => .error (.classNotSubscriptable cls.name)

/-- The value that an attribute map has for a key. -/
def mapItem (h : Heap) (r : Ref) (key default : Value) : Except Error Value :=
  match h.dict? r, h.dataOf? (.ref r) with
  | none, some data => .error (.noAttribute (h.typeName data) "get")
  | _, _ => .ok (AttributeMap.getD h r key default)

/-- The item of a value for a key or index. -/
def getItem (h : Heap) (v key : Value) : Except Error Value :=
  match v with
  | .text s _ => Value.ofChar <$> itemAt h "string" s.toList key
  | .feature state => Value.ofChar <$> itemAt h "string" state.text.toList key
  | .bytes bs _ => (fun b => .ofInt b.toNat) <$> itemAt h "byte" bs key
  | .ref r =>
    match h.read r with
    | some (.map _) => mapItem h r key .none
    | some (.dict entries) => dictItem h entries key
    | some (.list items) => itemAt h "list" items key
    | some (.tuple items) => itemAt h "tuple" items key
    | _ => .error (.notSubscriptable (h.typeName v))
  | .classOf cls => classItem h cls key
  | _ => .error (.notSubscriptable (h.typeName v))

/-- The list with the item at an index replaced. -/
def listWith (h : Heap) (items : List Value) (index item : Value) :
    Except Error (List Value) := do
  let i ← readIndex h "list" index
  match offset? items.length i with
  | some n => return items.set n item
  | none => .error .assignmentRange

/-- Writes the item of plain data for a key or index. -/
def setPlainItem (v key item : Value) : Heap.Action Unit := do
  let h ← get
  match v, h.cell? v with
  | .ref r, some (.dict entries) => do
    let key ← Heap.ask fun h => h.toKey key
    Heap.put r (.dict (entries.put key item))
  | .ref r, some (.list items) => do
    let items ← Heap.ask fun h => listWith h items key item
    Heap.put r (.list items)
  | _, _ => throw (.noItemAssignment (h.typeName v))

/-- Writes an entry of an attribute map. -/
def setMapItem (r : Ref) (key item : Value) : Heap.Action Unit := do
  let h ← get
  match h.dict? r, h.dataOf? (.ref r) with
  | none, some data => do
    let stored ← if h.isMap item then pure item else Heap.wrap item
    setPlainItem data (h.nameKey key).value stored
  | _, _ => discard (AttributeMap.set r key item)

/-- Writes the item of a value for a key or index. -/
def setItem (v key item : Value) : Heap.Action Unit := do
  match v, (← get).isMap v with
  | .ref r, true => setMapItem r key item
  | _, _ => setPlainItem v key item

/-- Whether a sequence occurs in another. -/
def occursIn {α : Type} [BEq α] (part : List α) : List α → Bool
  | [] => part.isEmpty
  | c :: rest => part.isPrefixOf (c :: rest) || occursIn part rest

/-- Whether a value is a pair of a key and its value in a dictionary. -/
def hasPair (h : Heap) (entries : Entries Key Value) (v : Value) : Except Error Bool := do
  match h.cell? v with
  | some (.tuple [k, w]) => return (entries.get? (← h.toKey k)).any (h.sameItem · w)
  | _ => return false

/-- Whether a number is one of some bytes, or a byte string is part of them. -/
def bytesContain (h : Heap) (bs : List UInt8) (part : Value) : Except Error Bool :=
  match part, part.integer? with
  | .bytes part _, _ => .ok (occursIn part bs)
  | _, some n => if 0 ≤ n ∧ n < 256 then .ok (bs.any (·.toNat == n)) else .error .byteRange
  | _, none => .error (.bytesOperand (h.typeName part))

/-- Whether a value is part of a text. -/
def textContains (h : Heap) (s : String) (part : Value) : Except Error Bool :=
  match part.text? with
  | some part => .ok (occursIn part.toList s.toList)
  | none => .error (.textOperand (h.typeName part))

/-- Whether a value that is no attribute map has a key, an item or a part. -/
def plainContains (v key : Value) : Heap.Action Bool := do
  let h ← get
  match v, h.cell? v with
  | .text s _, _ => Heap.ask fun h => textContains h s key
  | .feature state, _ => Heap.ask fun h => textContains h state.text key
  | .bytes bs _, _ => Heap.ask fun h => bytesContain h bs key
  | .classOf .featureState, _ =>
    match key with
    | .feature _ => return true
    | _ => throw (.stateOperand (h.typeName key))
  | _, some (.dict entries) => return entries.has (← Heap.ask fun h => h.toKey key)
  | _, some (.liveKeys of) => return (h.entriesAt of).has (← Heap.ask fun h => h.toKey key)
  | _, some (.liveItems of) => Heap.ask fun h => hasPair h (h.entriesAt of) key
  | _, _ => do
    let items ← tryCatch (Heap.elements v) fun
      | .notIterable type => throw (.notContainer type)
      | e => throw e
    return (← get) |> fun h => items.any fun item => h.sameItem item key

/-- Whether a value has a key, an item or a part. -/
def contains (v key : Value) : Heap.Action Bool := do
  let h ← get
  match v, h.dataOf? v with
  | .ref r, some data =>
    if (h.dict? r).isSome then return AttributeMap.contains h r key
    else plainContains data (h.nameKey key).value
  | _, _ => plainContains v key

end PageMeta.Object
