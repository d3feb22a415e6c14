import PageMeta.Object.Assign
import PageMeta.Object.Parameters

/-!
# Arguments of calls

Placing the arguments of a call by a signature, names as arguments, and storing under a name as the
classes of the library do when they are asked for it by a call.
-/

namespace PageMeta.Object

variable {κ : Type}

/-- Places arguments by a signature. -/
def bindArguments (signature : Signature) (args : Arguments) : Action κ Bound :=
  match signature.bind args with
  | .ok bound => pure bound
  | .error fault => throw (.arity signature.function fault)

/-- The text of a value as the name of an attribute. -/
def nameOf (h : Heap) (v : Value) : Except Error Name :=
  match v, v.text? with
  | .text s mark, _ => .ok ⟨s, mark⟩
  | _, some s => .ok s
  | .bytes _ _, none =>
    .error (.plain (.wrongType "startswith first arg" "be bytes or a tuple of bytes" "str"))
  | _, none => .error (.noAttribute (h.typeName v) "startswith")

/-- A function that there is no more to say about. -/
def unknownFunction (owner : ClassName) (name : String) : Error :=
  .noClassAttribute owner.name name

/-- Stores a value on an object by name: private attributes are kept, and anything else is handed to
what the object has to store values. -/
def storeByName (call : Caller κ) (v name value : Value) : Action κ Value := do
  let own ← Action.ask fun h => nameOf h name
  if Heap.isPrivate own.text then Action.onHeap (place v own.text value)
  else discard (send call v "set" (.of [name, value]))
  return .none

/-- Refuses to look a private name up. -/
def refusePrivate (name : Value) : Heap.Action Name := do
  let own ← Heap.ask fun h => nameOf h name
  if Heap.isPrivate own.text then throw (.missingName own.text)
  return own

end PageMeta.Object
