import PageMeta.Value.Basic
import PageMeta.Value.Entries

/-!
# Trees

A finite tree of lists and maps over values: what a nested setting, a document or the content of
an attribute map is once nothing is shared any more.  `κ` is the type of the keys.
-/

namespace PageMeta

/-- A finite tree. -/
inductive Tree (κ : Type) where
  | leaf (v : Value)
  | list (items : List (Tree κ))
  | map (entries : List (κ × Tree κ))
deriving Repr

instance {κ : Type} : Inhabited (Tree κ) := ⟨.leaf .none⟩

namespace Tree

variable {κ μ : Type}

/-- The entries of a map. -/
def entries? : Tree κ → Option (Entries κ (Tree κ))
  | .map entries => some entries
  | _ => none

mutual

/-- Number of levels of lists and maps. -/
def height : Tree κ → Nat
  | .leaf _ => 0
  | .list items => heightList items + 1
  | .map entries => heightEntries entries + 1

/-- Greatest height in a list. -/
def heightList : List (Tree κ) → Nat
  | [] => 0
  | t :: rest => max (height t) (heightList rest)

/-- Greatest height of the values. -/
def heightEntries : List (κ × Tree κ) → Nat
  | [] => 0
  | (_, t) :: rest => max (height t) (heightEntries rest)

end

mutual

/-- Applies a function to the keys at every level. -/
def mapKeys (f : κ → μ) : Tree κ → Tree μ
  | .leaf v => .leaf v
  | .list items => .list (mapKeysList f items)
  | .map entries => .map (mapKeysEntries f entries)

/-- `mapKeys` on every tree of a list. -/
def mapKeysList (f : κ → μ) : List (Tree κ) → List (Tree μ)
  | [] => []
  | t :: rest => mapKeys f t :: mapKeysList f rest

/-- `mapKeys` on keys and values. -/
def mapKeysEntries (f : κ → μ) : List (κ × Tree κ) → List (μ × Tree μ)
  | [] => []
  | (key, t) :: rest => (f key, mapKeys f t) :: mapKeysEntries f rest

end

mutual

/-- Applies a function to the leaves. -/
def mapLeaves (f : Value → Value) : Tree κ → Tree κ
  | .leaf v => .leaf (f v)
  | .list items => .list (mapLeavesList f items)
  | .map entries => .map (mapLeavesEntries f entries)

/-- `mapLeaves` on every tree of a list. -/
def mapLeavesList (f : Value → Value) : List (Tree κ) → List (Tree κ)
  | [] => []
  | t :: rest => mapLeaves f t :: mapLeavesList f rest

/-- `mapLeaves` on the values of entries. -/
def mapLeavesEntries (f : Value → Value) : List (κ × Tree κ) → List (κ × Tree κ)
  | [] => []
  | (key, t) :: rest => (key, mapLeaves f t) :: mapLeavesEntries f rest

end

end Tree

end PageMeta
