import PageMeta.Object.Item

/-!
# Selections

Which parts of a value a caller wants, given by what is to be included and what is to be excluded.

A choice is a dictionary from keys to choices of the parts' own parts, or any other container of
keys.  The truth value true chooses a part as a whole, and so does a key of a container.  The key
`__all__` stands for every key.  An absent choice says nothing.
-/

namespace PageMeta.Schema

/-- A selection of parts. -/
structure Selection where
  included : Value
  excluded : Value

/-- The selection of everything. -/
def Selection.all : Selection := ⟨.none, .none⟩

/-- Whether a choice is about a part as a whole. -/
def isWhole : Value → Bool
  | .bool true => true
  | _ => false

/-- The key that stands for every key. -/
def everyKey : Key := Key.ofText "__all__"

/-- The entries of a choice that has to be a dictionary. -/
def choiceEntries (h : Heap) (choice : Value) : Except Error (Entries Key Value) :=
  match h.cell? choice with
  | some (.dict entries) => .ok entries
  | _ => .error .choiceType

/-- Merges the choices of some keys into a dictionary of choices, given how to merge the choices of
one key. -/
def mergeEach (merge : Entries Key Value → Value → Heap.Action (Entries Key Value))
    (own : Entries Key Value) : Entries Key Value → Heap.Action (Entries Key Value)
  | [] => pure own
  | (key, choice) :: rest => do
    let merged ← match own.get? key with
      | none => pure (own.put key choice)
      | some present =>
        if isWhole present then pure own
        else do
          let inner ← merge (← Heap.ask fun h => choiceEntries h present) choice
          pure (own.put key (← Heap.newDict inner))
    mergeEach merge merged rest

/-- Merges the choice for every key into a dictionary of choices, down to `depth` levels. -/
def mergeChoices : Nat → Entries Key Value → Value → Heap.Action (Entries Key Value)
  | 0, _, _ => throw .tooDeep
  | depth + 1, own, common => do
    if isWhole common then return own
    else
      let choices ← Heap.ask fun h => choiceEntries h common
      mergeEach (mergeChoices depth) own choices

/-- The choice that a dictionary of choices has for a key. -/
def choiceAt (choices : Entries Key Value) (key : Key) : Heap.Action (Option Value) := do
  match choices.get? key, choices.get? everyKey with
  | some own, some common =>
    if isWhole own || isWhole common then return some own
    else do
      let entries ← Heap.ask fun h => choiceEntries h own
      some <$> Heap.newDict (← mergeChoices (← get).depth entries common)
  | some own, none => return some own
  | none, common => return common

/-- Whether a container that is no dictionary has a key, or the key for every key; nothing if it is
no container of keys. -/
def chosen? (choice : Value) (key : Key) : Heap.Action (Option Bool) := do
  let isContainer := match choice, (← get).cell? choice with
    | .text _ _, _ | .feature _, _ | .bytes _ _, _ => true
    | _, some (.list _) | _, some (.tuple _) | _, some (.map _) => true
    | _, some (.liveKeys _) | _, some (.liveItems _) => true
    | _, _ => false
  if isContainer then
    tryCatch (do
      let own ← Object.contains choice key.value
      let common ← Object.contains choice everyKey.value
      return some (own || common)) fun _ => pure none
  else return none

/-- What becomes of a part. -/
inductive Fate where
  | left
  | taken (selection : Selection)

/-- What an exclusion says of a part: nothing, or that it is left out, or what it leaves out of the
part. -/
def exclusionOf (choice : Value) (key : Key) : Heap.Action (Option (Option Value)) := do
  match choice, (← get).cell? choice with
  | .none, _ => return none
  | _, some (.dict choices) =>
    match ← choiceAt choices key with
    | none => return none
    | some inner => return some (if isWhole inner then none else some inner)
  | _, _ =>
    match ← chosen? choice key with
    | some true => return some none
    | some false => return none
    | none => throw (.selectionType "exclude")

/-- What an inclusion says of a part: nothing, or whether it is taken and what is taken of it. -/
def inclusionOf (choice : Value) (key : Key) : Heap.Action (Option (Option Value)) := do
  match choice, (← get).cell? choice with
  | .none, _ => return some (some .none)
  | _, some (.dict choices) =>
    match ← choiceAt choices key with
    | none => return none
    | some inner => return some (some (if isWhole inner then .none else inner))
  | _, _ =>
    match ← chosen? choice key with
    | some true => return some (some .none)
    | some false => return none
    | none => throw (.selectionType "include")

/-- What becomes of the part of a value under a key. -/
def Selection.fate (s : Selection) (key : Key) : Heap.Action Fate := do
  match ← exclusionOf s.excluded key with
  | some none => return .left
  | exclusion =>
    let inner := (exclusion.bind id).getD .none
    match ← inclusionOf s.included key with
    | some (some choice) => return .taken ⟨choice, inner⟩
    | _ => return .left

/-- A choice of the items of a list of `size` items, with indices counted from the front. -/
def fromFront (size : Nat) (choice : Value) : Heap.Action Value := do
  match (← get).cell? choice with
  | some (.dict choices) =>
    Heap.newDict (Entries.ofList (choices.map fun p => (frontKey p.1, p.2)))
  | _ => return choice
where
  /-- A key that is a negative index, counted from the front. -/
  frontKey (key : Key) : Key :=
    match key.value.integer? with
    | some n => if n < 0 then .atom (.ofInt (n + size)) else key
    | none => key

/-- A selection of the items of a list of `size` items. -/
def Selection.ofItems (s : Selection) (size : Nat) : Heap.Action Selection := do
  let included ← fromFront size s.included
  let excluded ← fromFront size s.excluded
  return ⟨included, excluded⟩

end PageMeta.Schema
