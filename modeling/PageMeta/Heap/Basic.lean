import PageMeta.Error
import PageMeta.Value.Tree

/-!
# The heap

Everything with an identity of its own and with parts lives in a cell, so that it can be held in
many places: lists, tuples, dictionaries, attribute maps, builders, stores, records, the fields that
builders hand out, and live views of dictionaries.  Cells are numbered in the order of their
allocation and are never freed.

What is kept by name lies in a dictionary with a cell of its own: the entries of an attribute map,
and the attributes of a builder, a store or a record.  `entriesAt` reads the entries of a dictionary
or map, whichever it is.

Scalars have no cells.  One that is made gets a mark of its own (`settle`).

`Heap.Action` is a computation on the heap that can fail; a failure keeps the heap it left behind.

* `read_alloc_new`, `read_alloc_old`: a new cell reads as written, old ones as before.
* `read_write_self`, `read_write_of_ne`: the same for a write.
-/

namespace PageMeta

/-- A cell of the heap. -/
inductive Cell where
  | list (items : List Value)
  | tuple (items : List Value)
  | dict (entries : Entries Key Value)
  /-- An attribute map, by what holds its entries: a dictionary, or another mapping in its place. -/
  | map (data : Value)
  /-- A builder, by the dictionary of its attributes; one of them is its buffer. -/
  | builder (kind : BuilderKind) (attributes : Ref)
  /-- A settings store, by the dictionary of its attributes. -/
  | store (attributes : Ref)
  /-- A record of a schema: the dictionary of its attributes, among them its fields; the dictionary
  of all other entries if it keeps them; and the keys that were given and not left to defaults. -/
  | record (schema : String) (attributes : Ref) (others : Option Ref) (given : List Key)
  /-- The field of a builder that goes by a name the builder's class does not declare. -/
  | field (owner name : Value)
  /-- The live keys of a dictionary. -/
  | liveKeys (of : Ref)
  /-- The live values of a dictionary. -/
  | liveValues (of : Ref)
  /-- The live entries of a dictionary. -/
  | liveItems (of : Ref)
deriving Repr

instance : Inhabited Cell := ⟨.list []⟩

/-- The dictionary of the attributes of a cell. -/
def Cell.attributes? : Cell → Option Ref
  | .builder _ attributes | .store attributes | .record _ attributes _ _ => some attributes
  | _ => none

/-- Cells in the order of their allocation. -/
structure Heap where
  cells : Array Cell
  /-- How many scalars were made. -/
  made : Nat
deriving Repr

namespace Heap

/-- The heap without cells. -/
def empty : Heap := ⟨#[], 0⟩

instance : Inhabited Heap := ⟨empty⟩

/-- Number of cells. -/
def size (h : Heap) : Nat := h.cells.size

/-- The cell at an address. -/
def read (h : Heap) (r : Ref) : Option Cell := h.cells[r.index]?

/-- The address that the next cell gets. -/
def next (h : Heap) : Ref := ⟨h.cells.size⟩

/-- The heap with one more cell. -/
def push (h : Heap) (c : Cell) : Heap := { h with cells := h.cells.push c }

/-- The heap with the cell at an address replaced. -/
def write (h : Heap) (r : Ref) (c : Cell) : Heap :=
  { h with cells := h.cells.setIfInBounds r.index c }

@[simp] theorem size_push (h : Heap) (c : Cell) : (h.push c).size = h.size + 1 := by
  simp [push, size]

@[simp] theorem size_write (h : Heap) (r : Ref) (c : Cell) : (h.write r c).size = h.size := by
  simp [write, size]

/-- A new cell reads as written. -/
@[simp] theorem read_alloc_new (h : Heap) (c : Cell) : (h.push c).read h.next = some c := by
  simp [push, read, next]

/-- Old cells read as before an allocation. -/
theorem read_alloc_old (h : Heap) (c : Cell) (r : Ref) (hr : r.index < h.size) :
    (h.push c).read r = h.read r := by
  simp only [push, read, size] at *
  rw [Array.getElem?_push]
  simp [Nat.ne_of_lt hr]

/-- A cell that is there reads as written. -/
theorem read_write_self (h : Heap) (r : Ref) (c : Cell) (hr : r.index < h.size) :
    (h.write r c).read r = some c := by
  simp only [size] at hr
  simp [write, read, hr]

/-- Other cells read as before a write. -/
theorem read_write_of_ne (h : Heap) (r s : Ref) (c : Cell) (hne : r ≠ s) :
    (h.write r c).read s = h.read s := by
  have hi : r.index ≠ s.index := fun he => hne (by cases r; cases s; simp_all)
  simp [write, read, hi]

/-- A computation on the heap that can fail. -/
abbrev Action := EStateM Error Heap

/-- Allocates a cell. -/
def alloc (c : Cell) : Action Ref := fun h => .ok h.next (h.push c)

/-- Replaces the cell at an address. -/
def put (r : Ref) (c : Cell) : Action Unit := fun h => .ok () (h.write r c)

/-- Asks the heap a question that can go wrong. -/
def ask {α : Type} (question : Heap → Except Error α) : Action α := fun h =>
  match question h with
  | .ok a => .ok a h
  | .error e => .error e h

/-- Asks the heap a question. -/
def look {α : Type} (question : Heap → α) : Action α := fun h => .ok (question h) h

/-- The cell that a value refers to. -/
def cell? (h : Heap) : Value → Option Cell
  | .ref r => h.read r
  | _ => none

/-- Allocates a list. -/
def newList (items : List Value) : Action Value := do
  return .ref (← alloc (.list items))

/-- Allocates a dictionary. -/
def newDict (entries : Entries Key Value) : Action Value := do
  return .ref (← alloc (.dict entries))

/-- Entries with texts as keys. -/
def textKeys {α : Type} (entries : Entries String α) : Entries Key α :=
  entries.map fun p => (Key.ofText p.1, p.2)

/-- Allocates a tuple. -/
def newTuple (items : List Value) : Action Value := do
  return .ref (← alloc (.tuple items))

/-! ## Making scalars -/

/-- Whether there is one integer only of a number. -/
def isSmall (n : Int) : Bool := -5 ≤ n && n ≤ 256

/-- A mark that no other scalar has. -/
def newMark : Action Mark := fun h => .ok (.made h.made) { h with made := h.made + 1 }

/-- Makes a scalar that is about to be made; any other value stays as it is.  Of small integers, of
the empty text, and of bytes of at most one there is one only. -/
def settle : Value → Action Value
  | .int n .pending => if isSmall n then pure (.ofInt n) else do return .int n (← newMark)
  | .real x .pending => do return .real x (← newMark)
  | .text s .pending => if s.isEmpty then pure (.ofText s) else do return .text s (← newMark)
  | .bytes bs .pending =>
    if bs.length ≤ 1 then pure (.bytes bs .shared) else do return .bytes bs (← newMark)
  | .method v owner name .pending => do return .method v owner name (← newMark)
  | v => pure v

/-- Makes the scalars of a list that are about to be made. -/
def settleAll : List Value → Action (List Value)
  | [] => pure []
  | v :: rest => do
    let w ← settle v
    let ws ← settleAll rest
    return w :: ws

/-- Makes a key that is about to be made. -/
def settleKey : Key → Action Key
  | .atom v => do return .atom (← settle v)
  | key => pure key

/-- A value that no longer is about to be made is left alone. -/
theorem settle_ofText (s : String) : settle (.ofText s) = pure (.ofText s) := rfl

/-- How deep an acyclic structure can be nested: every level has a cell of its own. -/
def depth (h : Heap) : Nat := h.size + 1

/-! ## Dictionaries behind maps -/

/-- The dictionary at an address, behind at most `depth` attribute maps, and its entries. -/
def dictTo (h : Heap) : Nat → Ref → Option (Ref × Entries Key Value)
  | 0, _ => none
  | depth + 1, r =>
    match h.read r with
    | some (.dict entries) => some (r, entries)
    | some (.map (.ref data)) => dictTo h depth data
    | _ => none

/-- The dictionary that a dictionary or map keeps its entries in, and the entries. -/
def dict? (h : Heap) (r : Ref) : Option (Ref × Entries Key Value) := h.dictTo h.depth r

/-- The entries of a dictionary or map. -/
def entriesAt (h : Heap) (r : Ref) : Entries Key Value := ((h.dict? r).map (·.2)).getD []

/-- Replaces the entries of a dictionary or map. -/
def putEntries (r : Ref) (entries : Entries Key Value) : Action Unit := fun h =>
  match h.dict? r with
  | some (d, _) => .ok () (h.write d (.dict entries))
  | none => .ok () h

/-- Writes an entry of a dictionary or map as it is. -/
def putEntry (r : Ref) (key : Key) (value : Value) : Action Unit := fun h =>
  putEntries r ((h.entriesAt r).put key value) h

/-- A dictionary has the entries written in it. -/
theorem entriesAt_dict {h : Heap} {r : Ref} {entries : Entries Key Value}
    (hr : h.read r = some (.dict entries)) : h.entriesAt r = entries := by
  simp [entriesAt, dict?, depth, dictTo, hr]

/-- A map over a dictionary has its entries. -/
theorem entriesAt_map {h : Heap} {r d : Ref} {entries : Entries Key Value}
    (hr : h.read r = some (.map (.ref d))) (hd : h.read d = some (.dict entries)) :
    h.entriesAt r = entries := by
  have hs : 0 < h.size := by
    rcases Nat.eq_zero_or_pos h.size with h0 | h0
    · simp only [read, size] at *
      rw [Array.getElem?_eq_none (by omega)] at hr
      cases hr
    · exact h0
  obtain ⟨n, hn⟩ : ∃ n, h.depth = n + 2 := ⟨h.size - 1, by simp [depth]; omega⟩
  simp [entriesAt, dict?, hn, dictTo, hr, hd]

/-- The dictionary or map that a value is. -/
def mapping? (h : Heap) (v : Value) : Option Ref :=
  match v with
  | .ref r => (h.dict? r).map fun _ => r
  | _ => none

/-- Whether a value is a dictionary or an attribute map. -/
def isMapping (h : Heap) (v : Value) : Bool := (h.mapping? v).isSome

/-- Whether a value is an attribute map. -/
def isMap (h : Heap) (v : Value) : Bool :=
  match h.cell? v with
  | some (.map _) => true
  | _ => false

/-- What holds the entries of an attribute map. -/
def dataOf? (h : Heap) (v : Value) : Option Value :=
  match h.cell? v with
  | some (.map data) => some data
  | _ => none

/-! ## Attributes -/

/-- The attributes of the object at an address, by name. -/
def attributesAt (h : Heap) (r : Ref) : Entries Key Value :=
  (((h.read r).bind Cell.attributes?).map h.entriesAt).getD []

/-- The attribute of a value that is kept under a name. -/
def attribute? (h : Heap) (v : Value) (name : String) : Option Value :=
  match v with
  | .ref r => (h.attributesAt r).get? (Key.ofText name)
  | _ => none

/-- The entries of a record that its schema has no field for. -/
def otherEntries (h : Heap) (others : Option Ref) : Entries Key Value :=
  (others.map h.entriesAt).getD []

end Heap

end PageMeta
