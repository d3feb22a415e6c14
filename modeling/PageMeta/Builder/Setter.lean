import PageMeta.Builder.Basic
import PageMeta.Heap.Iteration

/-!
# Declared fields

What using a declared field does, by the rule of the field (`PageMeta.FieldRule`).  Most fields
store one value and read when there is none.

A field stores and reads through the builder it is used on.  Where that is no builder, it uses
whatever goes by the names `set` and `get` there.
-/

namespace PageMeta.Builder

variable {κ : Type}

/-- Whether a name leads to the function that all builders have, on a builder. -/
def isOwn (h : Heap) (b : Value) : Object.Attribute → Bool
  | .method receiver (.builder .plain) _ => receiver = b && (kind? h b).isSome
  | _ => false

/-- Reads what is stored under a name. -/
def readFrom (call : Caller κ) (b name : Value) : Action κ Value := do
  let found ← Action.ask fun h => Object.lookup h b "get"
  if isOwn (← get).heap b found then Action.ask fun h => fieldAt h b (h.nameKey name)
  else Object.use call b "get" found (.of [name])

/-- How values are stored on an object under names. -/
def storing (call : Caller κ) (b : Value) : Action κ (Value → Value → Action κ Value) := do
  let found ← Action.ask fun h => Object.lookup h b "set"
  if isOwn (← get).heap b found then return fun name v => Action.onHeap (set b name v)
  else return fun name v => Object.use call b "set" found (.of [name, v])

/-- Stores a value under a name. -/
def storeIn (call : Caller κ) (b name v : Value) : Action κ Value := do
  (← storing call b) name v

/-- Stores a value that is present, reads otherwise. -/
def storeOrRead (call : Caller κ) (b name v : Value) : Action κ Value :=
  match v with
  | .none => readFrom call b name
  | _ => storeIn call b name v

/-- Uses a field by the rule that the builder has for plain fields. -/
def plainField (call : Caller κ) (b : Value) (name : String) (v : Value) : Action κ Value := do
  match ← Action.ask fun h => Object.lookup h b "_field" with
  | .method _ (.builder .plain) _ => storeOrRead call b (.ofText name) v
  | found => Object.use call b "_field" found (.of [.ofText name, v])

/-- The text of a value as a handle: with an `@` in front. -/
def handleText (s : String) : String := if s.startsWith "@" then s else "@" ++ s

/-- A value that is present as a handle.  A text that is one stays itself. -/
def handle (h : Heap) : Value → Value
  | .none => .none
  | .text s mark => if s.startsWith "@" then .text s mark else .newText (handleText s)
  | v => .newText (handleText (h.display v))

/-- Stores values as one flat list, reads if there are none. -/
def listField (call : Caller κ) (b : Value) (name : String) (vs : List Value) :
    Action κ Value := do
  if vs.isEmpty then readFrom call b (.ofText name)
  else
    let flat ← Action.ask fun h => h.flatten vs
    storeIn call b (.ofText name) (← Action.onHeap (Heap.newList flat))

/-- Stores what crawlers may do. -/
def robotsField (call : Caller κ) (b index follow : Value) (options : Entries Key Value) :
    Action κ Value := do
  let permissions := Heap.textKeys [("index", index), ("follow", follow)]
  let directive ← Action.onHeap (Heap.newDict (permissions.putAll options))
  storeIn call b (.ofText "robots") directive

/-! ## Values for platforms -/

/-- Stores a value for a platform, or for all of them; reads if there is no value.  What was
stored before is replaced by a new dictionary, never changed. -/
def storeForPlatform (call : Caller κ) (b name v platform : Value) : Action κ Value := do
  match v, platform with
  | .none, _ => readFrom call b name
  | _, .none => do
    let everywhere ← Action.onHeap
      (Heap.newDict (Heap.textKeys (appPlatforms.map fun p => (p, v))))
    storeIn call b name everywhere
  | _, _ => do
    let old ← readFrom call b name
    let entries ← if (← get).heap.truth old then Object.updateEntries call old else pure []
    let key ← Action.ask fun h => h.toKey platform
    storeIn call b name (← Action.onHeap (Heap.newDict ((Entries.ofList entries).put key v)))

/-- Uses a field by the rule that the builder has for values for platforms. -/
def appField (call : Caller κ) (b : Value) (name : String) (v platform : Value) :
    Action κ Value := do
  match ← Action.ask fun h => Object.lookup h b "_app_field" with
  | .method _ (.builder .twitterCards) _ => storeForPlatform call b (.ofText name) v platform
  | found => Object.use call b "_app_field" found (.of [.ofText name, v, platform])

end PageMeta.Builder
