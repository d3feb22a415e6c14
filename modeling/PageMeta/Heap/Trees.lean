import PageMeta.Heap.Iteration

/-!
# Trees in the heap

Reading a value as a finite tree, and building a tree from fresh cells.  Copying into an attribute
map and copying out of it are both a reading followed by a building, so nothing is shared between
the two sides but the leaves.  Scalars of a tree that are about to be made are made when the tree
is built.

Two readings differ in which cells they open:

* `Reading.given` reads what a caller hands in: lists and tuples are lists, dictionaries and maps
  are maps, with keys turned to text.
* `Reading.stored` reads the content of an attribute map: lists and maps, with keys as they are.
  Anything else is a leaf.

Two ways of building differ in what a map of the tree becomes: an attribute map
(`Building.wrapped`) or a dictionary (`Building.plain`).
-/

namespace PageMeta.Heap

/-- Which cells a reading opens. -/
inductive Reading where
  | given
  | stored
deriving DecidableEq, Repr

/-- What the maps of a tree become. -/
inductive Building where
  | wrapped
  | plain
deriving DecidableEq, Repr

/-- Reads a value as a tree of at most `depth` levels. -/
def treeTo (h : Heap) (reading : Reading) : Nat → Value → Except Error (Tree Key)
  | 0, _ => .error .tooDeep
  | depth + 1, v =>
    let inner := fun p : Key × Value => do return (p.1, ← treeTo h reading depth p.2)
    let named := fun p : Key × Value => do return (h.keyName p.1, ← treeTo h reading depth p.2)
    match v, h.cell? v, reading with
    | _, some (.list items), _ => .list <$> items.mapM (treeTo h reading depth)
    | _, some (.tuple items), .given => .list <$> items.mapM (treeTo h reading depth)
    | .ref r, some (.map _), .stored => do
      let entries ← h.items r
      .map <$> entries.mapM inner
    | .ref r, some (.map _), .given | .ref r, some (.dict _), .given => do
      let entries ← h.items r
      let read ← entries.mapM named
      return .map (Entries.ofList read)
    | _, _, _ => .ok (.leaf v)

/-- Reads a value as a tree. -/
def tree (h : Heap) (reading : Reading) (v : Value) : Except Error (Tree Key) :=
  h.treeTo reading h.depth v

/-- Allocates a map of a tree. -/
def Building.make (building : Building) (entries : Entries Key Value) : Action Value := do
  let r ← alloc (.dict entries)
  match building with
  | .wrapped => return .ref (← alloc (.map (.ref r)))
  | .plain => return .ref r

mutual

/-- Builds a tree from fresh cells. -/
def build (building : Building) : Tree Key → Action Value
  | .leaf v => settle v
  | .list items => do
    let values ← buildList building items
    newList values
  | .map entries => do
    let values ← buildEntries building entries
    building.make values

/-- Builds the trees of a list. -/
def buildList (building : Building) : List (Tree Key) → Action (List Value)
  | [] => pure []
  | t :: rest => do
    let v ← build building t
    let vs ← buildList building rest
    return v :: vs

/-- Builds the values of entries. -/
def buildEntries (building : Building) : List (Key × Tree Key) → Action (Entries Key Value)
  | [] => pure []
  | (key, t) :: rest => do
    let k ← settleKey key
    let v ← build building t
    let vs ← buildEntries building rest
    return (k, v) :: vs

end

/-- Builds a tree that has texts as keys. -/
def buildText (building : Building) (t : Tree String) : Action Value :=
  build building (t.mapKeys Key.ofText)

/-- Copies what a caller hands in, so that the copy can be kept in an attribute map. -/
def wrap (v : Value) : Action Value := do
  build .wrapped (← ask fun h => h.tree .given v)

/-- Copies a value out of an attribute map, as plain data. -/
def unwrap (v : Value) : Action Value := do
  build .plain (← ask fun h => h.tree .stored v)

end PageMeta.Heap
