import PageMeta.Heap.Basic
import PageMeta.Object.Functions

/-!
# Detached copies

A detached copy of a value has a fresh cell for every cell that can be reached from it and can
change, so that no change on either side is seen on the other.  What was shared inside the value
is shared in the same way inside the copy: copying is a renaming of addresses.

A tuple of values that stay is never changed and stays itself, and so does a function of plain data
with the object it is bound to; any other bound function is bound to a copy.  Live views cannot be
copied; the first one met, going depth first, is complained about.

* `reachable` lists the cells that can be reached.
* `stays` tells the values that need no copy.
* `detach` copies a value.
-/

namespace PageMeta

/-- Applies a function to the values in a key. -/
def Key.mapValues (f : Value → Value) : Key → Key
  | .atom v => .atom (f v)
  | .tuple r items =>
    let moved := match f (.ref r) with
      | .ref s => s
      | _ => r
    .tuple moved (mapList items)
where
  /-- `mapValues` on every key of a list. -/
  mapList : List Key → List Key
    | [] => []
    | k :: rest => Key.mapValues f k :: mapList rest

/-- Whether a bound function is copied together with the object it is about. -/
def isCopiedMethod (owner : ClassName) (name : String) : Bool :=
  match owner with
  | .data _ => ClassName.isSlot owner name
  | _ => true

/-- The address a value leads to, if it leads to one. -/
def Value.target? : Value → Option Ref
  | .ref r => some r
  | .method receiver owner name _ => if isCopiedMethod owner name then receiver.target? else Option.none
  | _ => Option.none

/-- The value with its address renamed. -/
def Value.rename (f : Ref → Ref) : Value → Value
  | .ref r => .ref (f r)
  | .method receiver owner name mark =>
    if isCopiedMethod owner name then .method (receiver.rename f) owner name mark
    else .method receiver owner name mark
  | v => v

namespace Cell

/-- The values held by a cell, in the order in which a copy is made of them. -/
def values : Cell → List Value
  | .list items | .tuple items => items
  | .dict entries => entries.flatMap fun p => [p.1.value, p.2]
  | .map data => [data]
  | .builder _ attributes | .store attributes => [.ref attributes]
  | .record _ attributes others _ => .ref attributes :: others.toList.map .ref
  | .field owner name => [owner, name]
  | .liveKeys _ | .liveValues _ | .liveItems _ => []

/-- The cell with every address renamed. -/
def rename (f : Ref → Ref) : Cell → Cell
  | .list items => .list (items.map (Value.rename f))
  | .tuple items => .tuple (items.map (Value.rename f))
  | .dict entries =>
    .dict (entries.map fun p => (p.1.mapValues (Value.rename f), p.2.rename f))
  | .map data => .map (data.rename f)
  | .builder kind attributes => .builder kind (f attributes)
  | .store attributes => .store (f attributes)
  | .record schema attributes others given =>
    .record schema (f attributes) (others.map f) (given.map (Key.mapValues (Value.rename f)))
  | .field owner name => .field (owner.rename f) (name.rename f)
  | .liveKeys of => .liveKeys (f of)
  | .liveValues of => .liveValues (f of)
  | .liveItems of => .liveItems (f of)

/-- The type name of a cell that cannot be copied. -/
def uncopyable? : Cell → Option String
  | .liveKeys _ => some "dict_keys"
  | .liveValues _ => some "dict_values"
  | .liveItems _ => some "dict_items"
  | _ => none

end Cell

namespace Heap

/-- The values held by the cell at an address. -/
def heldBy (h : Heap) (r : Ref) : List Value := ((h.read r).map Cell.values).getD []

/-- The addresses that the cell at an address leads to. -/
def targets (h : Heap) (r : Ref) : List Ref := (h.heldBy r).filterMap Value.target?

/-- Number of values held by all cells. -/
def heldCount (h : Heap) : Nat := h.cells.foldl (fun n c => n + c.values.length) 0

/-- Adds to `seen`, latest first, what can be reached from the addresses in `front`, depth first,
in at most `steps` steps. -/
def reachFrom (h : Heap) : Nat → List Ref → List Ref → List Ref
  | 0, seen, _ => seen
  | _, seen, [] => seen
  | steps + 1, seen, r :: front =>
    if seen.contains r then reachFrom h steps seen front
    else reachFrom h steps (r :: seen) (h.targets r ++ front)

/-- The cells that can be reached from a value, depth first. -/
def reachable (h : Heap) (v : Value) : List Ref :=
  (h.reachFrom (h.heldCount + 2) [] v.target?.toList).reverse

/-- Whether a value needs no copy, down to `depth` levels of tuples: it leads to no cell, or to a
tuple of values that need none. -/
def staysTo (h : Heap) : Nat → Value → Bool
  | 0, _ => false
  | depth + 1, v =>
    match v with
    | .ref r =>
      match h.read r with
      | some (.tuple items) => items.all (staysTo h depth)
      | some _ => false
      | none => true
    | .method _ owner name _ => !isCopiedMethod owner name
    | _ => true

/-- Whether a value needs no copy. -/
def stays (h : Heap) (v : Value) : Bool := h.staysTo h.depth v

/-- The cells that a copy of a value has to copy. -/
def copiedFor (h : Heap) (v : Value) : List Ref :=
  (h.reachable v).filter fun r => !h.stays (.ref r)

/-- The address that the copy of a cell gets, when the cells `copied` are copied in order. -/
def relocate (h : Heap) (copied : List Ref) (r : Ref) : Ref :=
  match copied.idxOf? r with
  | some i => ⟨h.size + i⟩
  | none => r

/-- The heap with copies of the cells `copied` added in order. -/
def withCopies (h : Heap) (copied : List Ref) : Heap :=
  { h with
    cells := h.cells ++ (copied.map fun r =>
      ((h.read r).getD default).rename (h.relocate copied)).toArray }

/-- Makes a detached copy of a value. -/
def detach (v : Value) : Action Value := fun h =>
  let copied := h.copiedFor v
  match copied.findSome? fun r => (h.read r).bind Cell.uncopyable? with
  | some type => .error (.cannotCopy type) h
  | none => .ok (v.rename (h.relocate copied)) (h.withCopies copied)

end Heap

end PageMeta
