import PageMeta.Heap.Trees

/-!
# Attribute maps

A map from text to values that keeps its own copies: dictionaries become attribute maps at every
depth, tuples become lists, and keys become text.  Only `set` keeps an attribute map it is given
as it is.

Reading by key never fails; reading by name does for a key that was never written.
-/

namespace PageMeta.AttributeMap

open Heap (Action)

/-- Makes a map from nothing, or from a copy of a mapping. -/
def create (source : Value) : Action Value := do
  let h ← get
  match source with
  | .none => Heap.Building.wrapped.make []
  | _ =>
    if h.isMapping source then Heap.wrap source
    else throw (.cannotWrap (h.typeName source))

/-- Empties a map, then fills it with a copy of a mapping.  What held the entries before is left
alone. -/
def restart (m : Ref) (source : Value) : Action Unit := do
  Heap.put m (.map (← Heap.newDict []))
  let filled ← create source
  match (← get).dataOf? filled with
  | some data => Heap.put m (.map data)
  | none => pure ()

/-- Stores a value under a key.  An attribute map is stored itself, anything else as a copy. -/
def set (m : Ref) (key value : Value) : Action Value := do
  let h ← get
  let name ← Heap.settleKey (h.nameKey key)
  let stored ← if h.isMap value then pure value else Heap.wrap value
  Heap.putEntry m name stored
  return .ref m

/-- The value of a key, or a default. -/
def getD (h : Heap) (m : Ref) (key default : Value) : Value :=
  ((h.entriesAt m).get? (h.nameKey key)).getD default

/-- Whether a key was ever written. -/
def contains (h : Heap) (m : Ref) (key : Value) : Bool := (h.entriesAt m).has (h.nameKey key)

/-- The map as plain data that shares nothing with it. -/
def toDict (m : Ref) : Action Value := Heap.unwrap (.ref m)

/-! ## Merging -/

/-- Merges the value of one key: two maps are merged by `descend`, anything else is replaced by a
copy of what comes in. -/
def mergeKey (descend : Ref → Ref → Action Unit) (target : Ref) (key : Key) (incoming : Value) :
    Action Unit := do
  let h ← get
  let name := h.keyName key
  let current := ((h.entriesAt target).get? name).getD .none
  match current, h.isMap current, h.mapping? incoming with
  | .ref inner, true, some source => descend inner source
  | _, _, _ => do
    let name ← Heap.settleKey name
    let copy ← Heap.wrap incoming
    Heap.putEntry target name copy

/-- Merges a mapping into a map, going down at most `depth` levels. -/
def mergeTo : Nat → Ref → Ref → Action Unit
  | 0, _, _ => throw .tooDeep
  | depth + 1, target, source => Heap.forEach (mergeKey (mergeTo depth) target) source

/-- Merges a mapping into a map, at every depth. -/
def merge (target : Ref) (other : Value) : Action Value := do
  let h ← get
  match h.mapping? other with
  | some source => do
    mergeTo h.depth target source
    return .ref target
  | none => throw (.cannotMerge (h.typeName other))

end PageMeta.AttributeMap
