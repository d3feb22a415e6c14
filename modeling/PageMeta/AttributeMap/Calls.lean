import PageMeta.Object.Binding

/-!
# Calls of functions of attribute maps

A function of attribute maps takes the map it is about as its first argument.  That can be any
object: what is no map is asked for what holds its entries once there is something to do with them.
-/

namespace PageMeta.AttributeMap

variable {κ : Type}

/-- Calls a function of attribute maps on a map. -/
def callOwn (m : Ref) (name : String) (values : List Value) : Heap.Action Value := do
  let h ← get
  let base := ((h.dict? m).map (·.1)).getD m
  match name, values with
  | "get", [key, default] => return getD h m key default
  | "__getitem__", [key] => return getD h m key .none
  | "set", [key, value] => set m key value
  | "merge", [other] => merge m other
  | "to_dict", _ => toDict m
  | "keys", _ | "__iter__", _ => return .ref (← Heap.alloc (.liveKeys base))
  | "items", _ => return .ref (← Heap.alloc (.liveItems base))
  | "__contains__", [key] => return .bool (contains h m key)
  | "__len__", _ => return .newInt (h.entriesAt m).length
  | "__getattr__", [asked] => do
    let own ← Object.refusePrivate asked
    match (h.entriesAt m).get? (Key.ofText own.text) with
    | some v => return v
    | none => throw (.undefinedKey own.text)
  | _, _ => throw (Object.unknownFunction .attributeMap name)

/-- The dictionary or map that a value has as the entries of an attribute map. -/
def entriesHolder (h : Heap) (v : Value) : Except Error Ref :=
  match Object.lookup h v "_data" with
  | .ok (.stored w) =>
    match h.mapping? w with
    | some r => .ok r
    | none => .error (Object.lack h w "get")
  | .ok _ => .error (.missingName "_data")
  | .error e => .error e

/-- Calls a function of attribute maps on what may have the entries of one. -/
def callOnHolder (v : Value) (name : String) (values : List Value) : Heap.Action Value := do
  let data ← Heap.ask fun h => entriesHolder h v
  let m ← Heap.alloc (.map (.ref data))
  let result ← callOwn m name values
  return if result = .ref m then v else result

/-- Gives a value the entries of a mapping. -/
def restartOn (v source : Value) : Heap.Action Unit := do
  Object.place v "_data" (← Heap.newDict [])
  let filled ← create source
  match (← get).dataOf? filled with
  | some data => Object.place v "_data" data
  | none => pure ()

/-- Merges a mapping into what may have the entries of a map. -/
def mergeOn (v other : Value) : Heap.Action Value := do
  let h ← get
  match h.mapping? other with
  | some r => if (h.entriesAt r).isEmpty then return v else callOnHolder v "merge" [other]
  | none => throw (.cannotMerge (h.typeName other))

/-- Calls a function of attribute maps. -/
def callFunction (call : Caller κ) (v : Value) (name : String) (values : List Value) :
    Action κ Value := do
  let h := (← get).heap
  match name, values, v, (h.isMap v && (h.mapping? v).isSome) with
  | "__setitem__", [key, value], _, _ => do
    discard (Object.send call v "set" (.of [key, value]))
    return .none
  | "__setattr__", [name, value], _, _ => Object.storeByName call v name value
  | "__init__", [source], _, _ => do
    Action.onHeap (restartOn v source)
    return .none
  | "__eq__", [other], .ref _, true => .bool <$> Action.look fun h => h.same v other
  | "__eq__", [other], _, _ => do
    let plain ← Object.send call v "to_dict" {}
    .bool <$> Action.look fun h => h.same plain other
  | "__repr__", _, .ref _, true => Value.newText <$> Action.look fun h => h.written v
  | "__repr__", _, _, _ => do
    let plain ← Object.send call v "to_dict" {}
    Value.newText <$> Action.look fun h => "DynamicAttributeMap(" ++ h.written plain ++ ")"
  | _, _, .ref m, true => Action.onHeap (callOwn m name values)
  | "__getattr__", [asked], _, _ => Action.onHeap do
    discard (Object.refusePrivate asked)
    callOnHolder v name values
  | "merge", [other], _, _ => Action.onHeap (mergeOn v other)
  | _, _, _, _ => Action.onHeap (callOnHolder v name values)

end PageMeta.AttributeMap
