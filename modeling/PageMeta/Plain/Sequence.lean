import PageMeta.Object.Mapping
import PageMeta.Plain.Argument
import PageMeta.Plain.Order
import PageMeta.Plain.Search

/-!
# Functions of lists and tuples

`callList` and `callTuple` call functions of lists and of tuples.  A list is changed where it stands.
-/

namespace PageMeta.Plain

variable {κ : Type}

/-- The items of a value that is a list. -/
def listAt (h : Heap) (r : Ref) : List Value :=
  match h.read r with
  | some (.list items) => items
  | _ => []

/-- Where a value occurs first between two bounds. -/
def placeOf? (h : Heap) (items : List Value) (v : Value) (bounds : Int × Int) : Option Nat :=
  let low := boundIn items.length bounds.1
  let high := boundIn items.length bounds.2
  ((between items low high).findIdx? fun item => h.sameItem item v).map (· + low)

/-- How often a value occurs. -/
def occurrences (h : Heap) (items : List Value) (v : Value) : Int :=
  (items.filter fun item => h.sameItem item v).length

/-- Takes an item out of a list. -/
def popItem (r : Ref) (places : Places) : Heap.Action Value := do
  let items := listAt (← get) r
  let index ← places.index 0 (-1)
  if items.isEmpty then fail .emptyList
  match Object.offset? items.length index with
  | some n => do
    Heap.put r (.list (items.eraseIdx n))
    return items[n]?.getD .none
  | none => fail .popRange

/-- Takes the first item like a value out of a list. -/
def removeItem (r : Ref) (v : Value) : Heap.Action Value := do
  let h ← get
  let items := listAt h r
  match items.findIdx? fun item => h.sameItem item v with
  | some n => do
    Heap.put r (.list (items.eraseIdx n))
    return .none
  | none => fail (.notFound "list.remove" "list")

/-- Leaves the item at an index out of a list. -/
def deleteItem (r : Ref) (key : Value) : Heap.Action Value := do
  let items := listAt (← get) r
  let index ← Heap.ask fun h => Object.readIndex h "list" key
  match Object.offset? items.length index with
  | some n => do
    Heap.put r (.list (items.eraseIdx n))
    return .none
  | none => throw .assignmentRange

/-- Adds what a value yields to a list. -/
def extendList (r : Ref) (v : Value) : Heap.Action Unit := do
  let added ← Heap.elements v
  Heap.put r (.list (listAt (← get) r ++ added))

/-- What items are sorted by: what a function gives for each of them, or they themselves. -/
def sortKeys (call : Caller κ) (key : Value) : List Value → Action κ (List Keyed)
  | [] => pure []
  | item :: rest => do
    let own ← match key with
      | .none => pure item
      | _ => call key (.of [item])
    let others ← sortKeys call key rest
    return (own, item) :: others

/-- Sorts a list.  A comparison that goes wrong leaves the items in the order reached. -/
def sortList (call : Caller κ) (r : Ref) (places : Places) : Action κ Value := do
  let isReversed := (← Action.onHeap (places.index 1 0)) != 0
  let items := listAt (← get).heap r
  let keyed ← sortKeys call (places.at 0) items
  let turn := fun keyed : List Keyed => if isReversed then keyed.reverse else keyed
  match sort (← get).heap (turn keyed) with
  | .ok sorted => do
    Action.onHeap (Heap.put r (.list ((turn sorted).map (·.2))))
    return .none
  | .error stopped => do
    Action.onHeap (Heap.put r (.list ((turn stopped.items).map (·.2))))
    throw stopped.error

/-- Items repeated by a number. -/
def repeated (items : List Value) (v : Value) : Heap.Action (List Value) := do
  return (List.replicate (← indexOf v).toNat items).flatten

/-- The place of a value in a sequence; `written` words the complaint. -/
def indexIn (items : List Value) (places : Places) (complain : Heap → Fault) :
    Heap.Action Value := do
  let bounds ← places.bounds 1 false
  let h ← get
  match placeOf? h items (places.at 0) bounds with
  | some n => return .newInt n
  | none => fail (complain h)

/-- Calls a function of lists that needs nothing but the heap. -/
def callListHere (r : Ref) (name : String) (places : Places) : Heap.Action Value := do
  let h ← get
  let items := listAt h r
  let v := places.at 0
  match name with
  | "append" => do
    Heap.put r (.list (items ++ [v]))
    return .none
  | "clear" => do
    Heap.put r (.list [])
    return .none
  | "copy" => Heap.newList items
  | "count" => return .newInt (occurrences h items v)
  | "extend" => do
    extendList r v
    return .none
  | "__iadd__" => do
    extendList r v
    return .ref r
  | "__init__" => do
    Heap.put r (.list [])
    match places.at? 0 with
    | some v => extendList r v
    | none => pure ()
    return .none
  | "index" => indexIn items places fun h => .notInList (h.written v)
  | "insert" => do
    let n := boundIn items.length (← indexOf v)
    Heap.put r (.list (items.insertIdx n (places.at 1)))
    return .none
  | "pop" => popItem r places
  | "remove" => removeItem r v
  | "reverse" => do
    Heap.put r (.list items.reverse)
    return .none
  | "__add__" =>
    match h.cell? v with
    | some (.list others) => Heap.newList (items ++ others)
    | _ => fail (.concatenation "list" (h.typeName v))
  | "__mul__" | "__rmul__" => do Heap.newList (← repeated items v)
  | "__imul__" => do
    Heap.put r (.list (← repeated items v))
    return .ref r
  | "__contains__" => return .bool (items.any fun item => h.sameItem item v)
  | "__delitem__" => deleteItem r v
  | "__getitem__" => Heap.ask fun h => Object.getItem h (.ref r) v
  | "__setitem__" => do
    Object.setItem (.ref r) v (places.at 1)
    return .none
  | "__len__" => return .newInt items.length
  | "__iter__" => Heap.newList items
  | "__reversed__" => Heap.newList items.reverse
  | _ => throw (.noAttribute "list" name)

/-- Calls a function of lists on a list. -/
def callList (call : Caller κ) (r : Ref) (name : String) (places : Places) : Action κ Value :=
  if name = "sort" then sortList call r places else Action.onHeap (callListHere r name places)

/-- Calls a function of tuples on a tuple. -/
def callTuple (v : Value) (items : List Value) (name : String) (places : Places) :
    Heap.Action Value := do
  let h ← get
  let w := places.at 0
  match name with
  | "count" => return .newInt (occurrences h items w)
  | "index" => indexIn items places fun _ => .notFound "tuple.index" "tuple"
  | "__add__" =>
    match h.cell? w with
    | some (.tuple others) =>
      if items.isEmpty then return w
      else if others.isEmpty then return v
      else Heap.newTuple (items ++ others)
    | _ => fail (.concatenation "tuple" (h.typeName w))
  | "__mul__" | "__rmul__" => do
    let n ← indexOf w
    if n = 1 then return v else Heap.newTuple (List.replicate n.toNat items).flatten
  | "__contains__" => return .bool (items.any fun item => h.sameItem item w)
  | "__getitem__" => Heap.ask fun h => Object.getItem h v w
  | "__len__" => return .newInt items.length
  | "__iter__" => Heap.newList items
  | "__getnewargs__" => Heap.newTuple [v]
  | _ => throw (.noAttribute "tuple" name)

end PageMeta.Plain
