import PageMeta.Object.Send

/-!
# Values as dictionaries

How the entries of a dictionary are taken from a value of another kind: from a value that tells its
keys, or from a sequence of pairs.
-/

namespace PageMeta.Object

variable {κ : Type}

/-- Writes the pairs in a sequence of pairs, from the element with number `n` on. -/
def writePairs (r : Ref) : Nat → List Value → Heap.Action Unit
  | _, [] => pure ()
  | n, v :: rest => do
    let parts ← tryCatch (Heap.elements v) fun
      | .notIterable _ => throw (.elementNotSequence n)
      | e => throw e
    match parts with
    | [k, w] => do
      let key ← Heap.ask fun h => h.toKey k
      Heap.putEntry r key w
      writePairs r (n + 1) rest
    | _ => throw (.elementLength n parts.length)

/-- Writes the entries that a value has under keys. -/
def writeKeyed (r : Ref) (v : Value) : List Value → Heap.Action Unit
  | [] => pure ()
  | k :: rest => do
    let w ← Heap.settle (← Heap.ask fun h => getItem h v k)
    let key ← Heap.ask fun h => h.toKey k
    Heap.putEntry r key w
    writeKeyed r v rest

/-- Writes the entries of a value into a dictionary, in order: those of a dictionary, those under the
keys that a value tells when asked for `keys`, or the pairs in a sequence of pairs. -/
def updateFrom (call : Caller κ) (r : Ref) (v : Value) : Action κ Unit := do
  let h := (← get).heap
  match h.cell? v, lookup h v "keys" with
  | some (.dict entries), _ =>
    Action.onHeap (Heap.putEntries r ((h.entriesAt r).putAll entries))
  | _, .ok found => do
    let answer ← use call v "keys" found {}
    Action.onHeap do
      let keys ← tryCatch (Heap.elements answer) fun
        | .notIterable type => do throw (.keysNotIterable ((← get).typeName v) type)
        | e => throw e
      writeKeyed r v keys
  | _, .error e =>
    if e.isMissingAttribute then Action.onHeap do writePairs r 0 (← Heap.elements v)
    else throw e

/-- The entries of a value turned into a dictionary. -/
def updateEntries (call : Caller κ) (v : Value) : Action κ (Entries Key Value) := do
  let r ← Action.onHeap (Heap.alloc (.dict []))
  updateFrom call r v
  Action.look fun h => h.entriesAt r

/-- The pairs that a value yields, each taken apart into a key and a value. -/
def unpackPairs (v : Value) : Heap.Action (List (Key × Value)) := do
  unpackEach (← Heap.elements v)
where
  /-- The parts of pairs. -/
  unpackEach : List Value → Heap.Action (List (Key × Value))
    | [] => pure []
    | pair :: rest => do
      match ← Heap.elements pair with
      | [k, w] => do
        let key ← Heap.ask fun h => h.toKey k
        let others ← unpackEach rest
        return (key, w) :: others
      | parts => throw (.unpackLength parts.length)

end PageMeta.Object
