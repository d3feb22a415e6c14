import PageMeta.Heap.Copy
import PageMeta.Object.Mapping

/-!
# Builders

A builder collects values in a buffer under text keys.  It keeps the values themselves, not
copies, and never removes a key; what it hands out as a whole is a detached copy.

The operations ask for no more than a buffer, so that they also say what happens when a function
of builders is called on something else.
-/

namespace PageMeta.Builder

/-- Makes a builder with an empty buffer. -/
def create (kind : BuilderKind) : Heap.Action Value := do
  let buffer ← Heap.newDict []
  let attributes ← Heap.alloc (.dict (Heap.textKeys [("_config", buffer)]))
  return .ref (← Heap.alloc (.builder kind attributes))

/-- The class of a value that is a builder. -/
def kind? (h : Heap) (b : Value) : Option BuilderKind :=
  match h.cell? b with
  | some (.builder kind _) => some kind
  | _ => none

/-- The dictionary or map that is the buffer of a builder. -/
def buffer (h : Heap) (b : Value) : Except Error Ref :=
  match Object.lookup h b "_config" with
  | .ok (.stored v) =>
    match h.mapping? v with
    | some r => .ok r
    | none => .error (Object.lack h v "get")
  | .ok _ => .error (.missingName "_config")
  | .error e => .error e

/-- The value stored under a key; absent if there is none. -/
def fieldAt (h : Heap) (b : Value) (key : Key) : Except Error Value := do
  return ((h.entriesAt (← buffer h b)).get? key).getD .none

/-- The value stored under a text; absent if there is none. -/
def field (h : Heap) (b : Value) (name : String) : Except Error Value :=
  fieldAt h b (Key.ofText name)

/-- Stores a value under a key.  A buffer that is an attribute map keeps a copy. -/
def putAt (b : Value) (key : Key) (v : Value) : Heap.Action Value := do
  let buffer ← Object.getAttribute b "_config"
  let name ← Heap.settleKey key
  Object.setItem buffer name.value v
  return b

/-- Stores a value under the text of a key. -/
def set (b key v : Value) : Heap.Action Value := do putAt b ((← get).nameKey key) v

/-- The buffer, detached from the builder. -/
def toDict (b : Value) : Heap.Action Value := do
  Heap.detach (← Object.getAttribute b "_config")

/-- What merging a value goes through: a dictionary as it is, a copy of a map or of the buffer of a
builder. -/
def mergeSource (other : Value) : Heap.Action Value := do
  let h ← get
  match other, h.cell? other with
  | .ref r, some (.map _) => AttributeMap.toDict r
  | _, some (.builder _ _) => toDict other
  | _, _ => return other

/-- Stores the entries of a dictionary, attribute map or builder. -/
def merge (b other : Value) : Heap.Action Value := do
  let source ← mergeSource other
  match (← get).mapping? source with
  | some r => do
    Heap.forEach (fun key v => do discard (putAt b ((← get).keyName key) v)) r
    return b
  | none => throw (.cannotMerge ((← get).typeName other))

end PageMeta.Builder
