import PageMeta.Heap.Equality

/-!
# Keys and elements

Values as keys of dictionaries, and what going through a value yields.

Flattening gives the values in nested lists and tuples from left to right.  Everything that is
neither a list nor a tuple is a leaf, text and mappings included.
-/

namespace PageMeta.Heap

/-- Whether values of a cell's type can be keys; tuples can if their items can. -/
def isHashableCell : Cell → Bool
  | .list _ | .dict _ | .map _ | .record _ _ _ _ | .liveKeys _ | .liveItems _ => false
  | .tuple _ | .builder _ _ | .store _ | .field _ _ | .liveValues _ => true

/-- A value as a key, down to `depth` levels of tuples. -/
def toKeyTo (h : Heap) : Nat → Value → Except Error Key
  | 0, _ => .error .tooDeep
  | depth + 1, v =>
    match v with
    | .ref r =>
      match h.read r with
      | some (.tuple items) => .tuple r <$> items.mapM (toKeyTo h depth)
      | some c => if isHashableCell c then .ok (.atom v) else .error (.unhashable (h.typeName v))
      | none => .ok (.atom v)
    | _ => .ok (.atom v)

/-- A value as a key. -/
def toKey (h : Heap) (v : Value) : Except Error Key := h.toKeyTo h.depth v

/-- Keys as values. -/
def ofKeys (keys : List Key) : List Value := keys.map Key.value

/-- Entries as two-item tuples. -/
def pairs : Entries Key Value → Action (List Value)
  | [] => pure []
  | (key, value) :: rest => do
    let first ← newTuple [key.value, value]
    let others ← pairs rest
    return first :: others

/-- Whether a name is private. -/
def isPrivate (name : String) : Bool := name.startsWith "_"

/-- Whether going through a record yields an attribute: it does not if its name is private. -/
def isListed (h : Heap) (key : Key) : Except Error Bool :=
  match key.value.text? with
  | some name => .ok (!isPrivate name)
  | none => .error (.noAttribute (h.typeName key.value) "startswith")

/-- The entries that going through a record yields. -/
def listedEntries (h : Heap) (attributes : Ref) (others : Option Ref) :
    Except Error (Entries Key Value) := do
  let own ← (h.entriesAt attributes).filterM fun p => h.isListed p.1
  return own ++ h.otherEntries others

/-- What going through a value yields: items, characters, numbers of bytes, or keys. -/
def elements (v : Value) : Action (List Value) := do
  let h ← get
  match v with
  | .text s _ => settleAll (s.toList.map Value.ofChar)
  | .feature state => settleAll (state.text.toList.map Value.ofChar)
  | .bytes bs _ => return bs.map fun b => .ofInt b.toNat
  | .classOf .featureState => return FeatureState.all.map .feature
  | .ref r =>
    match h.read r with
    | some (.list items) | some (.tuple items) => return items
    | some (.dict entries) => return ofKeys entries.keys
    | some (.map data) =>
      match h.dict? r with
      | some (_, entries) => return ofKeys entries.keys
      | none => throw (.notIterable (h.typeName data))
    | some (.liveKeys of) => return ofKeys (h.entriesAt of).keys
    | some (.liveValues of) => return (h.entriesAt of).values
    | some (.liveItems of) => pairs (h.entriesAt of)
    | some (.record _ attributes others _) => do
      pairs (← ask fun h => h.listedEntries attributes others)
    | _ => throw (.notIterable (h.typeName v))
  | _ => throw (.notIterable (h.typeName v))

/-! ## Going through a mapping -/

/-- The entries of a dictionary or map, for going through them.  What a map holds its entries in
must be a mapping. -/
def items (h : Heap) (r : Ref) : Except Error (Entries Key Value) :=
  match h.dict? r, h.read r with
  | some (_, entries), _ => .ok entries
  | none, some (.map data) => .error (.noAttribute (h.typeName data) "items")
  | none, _ => .error (.noAttribute (h.typeName (.ref r)) "items")

/-- Does something for every entry of a mapping in order.  The mapping is read as it is at each
step; it must not have got a new key meanwhile. -/
def forEntries (visit : Key → Value → Action Unit) (source : Ref) (size : Nat) :
    List Key → Action Unit
  | [] => pure ()
  | key :: rest => do
    visit key ((((← get).entriesAt source).get? key).getD .none)
    if ((← get).entriesAt source).length = size then forEntries visit source size rest
    else throw .sizeChanged

/-- Does something for every entry of a mapping. -/
def forEach (visit : Key → Value → Action Unit) (source : Ref) : Action Unit := do
  let keys := (← ask (·.items source)).keys
  forEntries visit source keys.length keys

/-! ## Flat lists -/

/-- The items of a value that is a list or a tuple. -/
def sequence? (h : Heap) (v : Value) : Option (List Value) :=
  match h.cell? v with
  | some (.list items) | some (.tuple items) => some items
  | _ => none

/-- The leaves of one value, given how to flatten the items of a sequence. -/
def leavesOf (h : Heap) (inner : List Value → Except Error (List Value)) (v : Value) :
    Except Error (List Value) :=
  match h.sequence? v with
  | some items => inner items
  | none => .ok [v]

/-- The leaves of values in sequences nested at most `depth` levels. -/
def flattenTo (h : Heap) : Nat → List Value → Except Error (List Value)
  | 0, _ => .error .tooDeep
  | depth + 1, vs => List.flatten <$> vs.mapM (h.leavesOf (flattenTo h depth))

/-- The leaves of values. -/
def flatten (h : Heap) (vs : List Value) : Except Error (List Value) := h.flattenTo h.depth vs

end PageMeta.Heap
