import PageMeta.Builder.Build
import PageMeta.Object.Binding

/-!
# Calls of functions of builders

A function of builders takes the builder it is about as its first argument, which can be any object
that has what the function looks for.
-/

namespace PageMeta.Builder

variable {κ : Type}

/-- Uses a declared field. -/
def useField (call : Caller κ) (b : Value) (name : String) (rule : FieldRule) (bound : Bound) :
    Action κ Value := do
  match rule, bound.values with
  | .plain, [_, value] => plainField call b name value
  | .handle, [_, value] => do
    let h := (← get).heap
    let text ← Action.onHeap (Heap.settle (handle h value))
    plainField call b name text
  | .list, _ => listField call b name bound.rest
  | .robots, [_, index, follow] => robotsField call b index follow bound.options
  | .preset _, [_, value] => storeIn call b (.ofText name) value
  | .article, [_, block] => articleField call b block
  | .app, [_, value, platform] => appField call b name value platform
  | _, _ => throw (Object.unknownFunction (.builder .plain) name)

/-- Makes the dynamic field of a builder. -/
def newField (b name : Value) : Heap.Action Value := do
  discard (Object.refusePrivate name)
  return .ref (← Heap.alloc (.field b name))

/-- The written form of a builder. -/
def builderText (b : Value) : Heap.Action Value := do
  let buffer ← Object.getAttribute b "_config"
  let h ← get
  return .newText (h.typeName b ++ "(" ++ h.written buffer ++ ")")

/-- Calls a function of builders that is no declared field. -/
def callOther (call : Caller κ) (kind : BuilderKind) (b : Value) (name : String)
    (values : List Value) : Action κ Value := do
  match name, values with
  | "set", [key, value] => Action.onHeap (set b key value)
  | "get", [key] => Action.ask fun h => fieldAt h b (h.nameKey key)
  | "nested", [name, block] => nested call b name block
  | "evaluate", [block] => evaluate call b block
  | "validate", _ => Action.onHeap (validate kind b)
  | "build", _ => build call b
  | "build_model", _ => buildRecord call b
  | "to_dict", _ => Action.onHeap (toDict b)
  | "merge", [other] => Action.onHeap (merge b other)
  | "_field", [name, value] => storeOrRead call b name value
  | "_app_field", [name, value, platform] => storeForPlatform call b name value platform
  | "__getattr__", [name] => Action.onHeap (newField b name)
  | "__setattr__", [name, value] => Object.storeByName call b name value
  | "__repr__", _ => Action.onHeap (builderText b)
  | "__init__", _ => Action.onHeap do
    Object.place b "_config" (← Heap.newDict [])
    return .none
  | _, _ => throw (Object.unknownFunction (.builder kind) name)

/-- Calls a function of a class of builders. -/
def callFunction (call : Caller κ) (kind : BuilderKind) (b : Value) (name : String)
    (bound : Bound) : Action κ Value :=
  match kind.field? name with
  | some rule => useField call b name rule bound
  | none => callOther call kind b name bound.values.tail

/-- The written form of a field. -/
def fieldText (v : Value) : Heap.Action Value := do
  let name ← Object.getAttribute v "_name"
  let owner ← Object.getAttribute v "_builder"
  let h ← get
  return .newText ("<field " ++ h.written name ++ " of " ++ h.typeName owner ++ ">")

/-- Calls a function of dynamic fields. -/
def callFieldFunction (call : Caller κ) (v : Value) (name : String) (bound : Bound) :
    Action κ Value := do
  let h := (← get).heap
  match name, bound.values, h.cell? v with
  | "__call__", _, some (.field owner own) =>
    dynamicField call owner own bound.rest (bound.named.headD .none)
  | "__call__", _, _ => do
    let own ← Action.onHeap (Object.getAttribute v "_name")
    if 1 < bound.rest.length then
      throw (.severalValues ((← get).heap.display own) bound.rest.length)
    let owner ← Action.onHeap (Object.getAttribute v "_builder")
    dynamicField call owner own bound.rest (bound.named.headD .none)
  | "__repr__", _, _ => Action.onHeap (fieldText v)
  | "__init__", [_, owner, own], _ => Action.onHeap do
    Object.setAttribute v "_builder" owner
    Object.setAttribute v "_name" own
    return .none
  | _, _, _ => throw (Object.unknownFunction .dynamicField name)

end PageMeta.Builder
