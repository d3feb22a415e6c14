import PageMeta.Object.Mapping
import PageMeta.Plain.Argument
import PageMeta.Plain.Binding

/-!
# Functions of dictionaries

`callDictionary` calls functions of dictionaries, which change a dictionary where it stands, and
`callView` those of its live views.
-/

namespace PageMeta.Plain

variable {κ : Type}

/-- Takes the entry of a key out of a dictionary. -/
def popEntry (r : Ref) (places : Places) : Heap.Action Value := do
  let h ← get
  let entries := h.entriesAt r
  if entries.isEmpty && (places.at? 1).isNone then
    throw (.keyAbsent (h.written (places.at 0)))
  if entries.isEmpty then return places.at 1
  let key ← Heap.ask fun h => h.toKey (places.at 0)
  match entries.get? key, places.at? 1 with
  | some v, _ => do
    Heap.putEntries r (entries.erase key)
    return v
  | none, some default => return default
  | none, none => throw (.keyAbsent (h.written (places.at 0)))

/-- Takes the last entry out of a dictionary. -/
def popLast (r : Ref) : Heap.Action Value := do
  let entries := (← get).entriesAt r
  match entries.getLast? with
  | some (key, v) => do
    Heap.putEntries r entries.dropLast
    Heap.newTuple [key.value, v]
  | none => fail .emptyDictionary

/-- The value of a key; stores a default if there is none. -/
def setDefault (r : Ref) (places : Places) : Heap.Action Value := do
  let key ← Heap.ask fun h => h.toKey (places.at 0)
  match ((← get).entriesAt r).get? key with
  | some v => return v
  | none => do
    Heap.putEntry r key (places.at 1)
    return places.at 1

/-- Leaves the entry of a key out of a dictionary. -/
def deleteEntry (r : Ref) (v : Value) : Heap.Action Value := do
  let key ← Heap.ask fun h => h.toKey v
  let entries := (← get).entriesAt r
  if entries.has key then
    Heap.putEntries r (entries.erase key)
    return .none
  else throw (.keyAbsent ((← get).written v))

/-- Writes entries into a dictionary: those of a value, then those given by name. -/
def update (call : Caller κ) (r : Ref) (places : Places) (named : Entries Name Value) :
    Action κ Unit := do
  match places.at? 0 with
  | some v => Object.updateFrom call r v
  | none => pure ()
  let entries := named.map fun p => (Key.atom p.1.value, p.2)
  Action.onHeap do Heap.putEntries r (((← get).entriesAt r).putAll entries)

/-- Makes a dictionary that has one value for all keys that a value yields. -/
def fromKeys (places : Places) : Heap.Action Value := do
  let keys ← Heap.elements (places.at 0)
  let keys ← Heap.ask fun h => keys.mapM h.toKey
  Heap.newDict (Entries.ofList (keys.map fun k => (k, places.at 1)))

/-- Calls a function of dictionaries that needs nothing but the heap. -/
def callDictionaryHere (r : Ref) (name : String) (places : Places) : Heap.Action Value := do
  let h ← get
  let entries := h.entriesAt r
  let v := places.at 0
  match name with
  | "get" => do
    let key ← Heap.ask fun h => h.toKey v
    return (entries.get? key).getD (places.at 1)
  | "keys" => return .ref (← Heap.alloc (.liveKeys r))
  | "values" => return .ref (← Heap.alloc (.liveValues r))
  | "items" => return .ref (← Heap.alloc (.liveItems r))
  | "copy" => Heap.newDict entries
  | "clear" => do
    Heap.putEntries r []
    return .none
  | "pop" => popEntry r places
  | "popitem" => popLast r
  | "setdefault" => setDefault r places
  | "__contains__" => do
    let key ← Heap.ask fun h => h.toKey v
    return .bool (entries.has key)
  | "__getitem__" => Heap.ask fun h => Object.getItem h (.ref r) v
  | "__setitem__" => do
    Object.setItem (.ref r) v (places.at 1)
    return .none
  | "__delitem__" => deleteEntry r v
  | "__len__" => return .newInt entries.length
  | "__iter__" => return .ref (← Heap.alloc (.liveKeys r))
  | "__reversed__" => Heap.newList (Heap.ofKeys entries.keys.reverse)
  | "__or__" | "__ror__" => do
    let others : Entries Key Value := match h.cell? v with
      | some (.dict others) => others
      | _ => []
    Heap.newDict (if name = "__or__" then entries.putAll others else others.putAll entries)
  | _ => throw (.noAttribute "dict" name)

/-- Calls a function of dictionaries on a dictionary. -/
def callDictionary (call : Caller κ) (r : Ref) (name : String) (places : Places)
    (named : Entries Name Value) : Action κ Value := do
  match name with
  | "update" | "__init__" => do
    update call r places named
    return .none
  | "__ior__" => do
    update call r places []
    return .ref r
  | _ => Action.onHeap (callDictionaryHere r name places)

/-- Calls a function of live views on a view. -/
def callView (v : Value) (of : Ref) (name : String) (places : Places) : Heap.Action Value := do
  let w := places.at 0
  match name with
  | "isdisjoint" => do
    let items ← Heap.elements w
    isApart items
  | "__contains__" => .bool <$> Object.contains v w
  | "__len__" => return .newInt ((← get).entriesAt of).length
  | "__iter__" => do Heap.newList (← Heap.elements v)
  | "__reversed__" => do Heap.newList (← Heap.elements v).reverse
  | _ => throw (.noAttribute ((← get).typeName v) name)
where
  /-- Whether a view has none of some items. -/
  isApart : List Value → Heap.Action Value
    | [] => pure (.bool true)
    | item :: rest => do
      if ← Object.contains v item then return .bool false else isApart rest

end PageMeta.Plain
