import PageMeta.Object.Invoke
import PageMeta.Settings.Registry

/-!
# The library

The functions, constants and classes that go by names of their own.
-/

namespace PageMeta.Library

variable {κ : Type}

/-- Calls a function of the library. -/
def callFunction (call : Caller κ) (name : String) (args : Arguments) : Action κ Value := do
  let bound ← Object.bindArguments (Object.librarySignature name) args
  match name, bound.values with
  | "configure", [mutator] => Registry.configure call mutator
  | "current_config", _ => Registry.current
  | "reset_configuration", _ => do
    Registry.reset
    return .none
  | "enabled", [feature, store] => .bool <$> Registry.enabled call feature store
  | "feature_state", [feature, store] => .feature <$> Registry.featureState call feature store
  | "flatten_values", [values] => Action.onHeap do
    let items ← Heap.elements values
    Heap.newList (← Heap.ask fun h => h.flatten items)
  | "default_config", _ => Action.onHeap (Heap.buildText .plain Settings.defaults)
  | _, _ => throw (.noAttribute "module" name)

/-- The version of the library. -/
def version : String := "0.1.0"

/-- Makes a constant of the library. -/
def makeConstant (name : String) : Heap.Action Value := do
  match name with
  | "FEATURES" => Heap.newTuple (Registry.featureNames.map .ofText)
  | "SECTION_NAMES" => Heap.newTuple (SectionName.all.map fun s => .ofText s.name)
  | "__version__" => return .ofText version
  | _ => throw (.noAttribute "module" name)

/-- A constant of the library, the same object every time. -/
def constant (name : String) : Action κ Value := do
  match (← get).constants.get? name with
  | some v => return v
  | none => do
    let v ← Action.onHeap (makeConstant name)
    modify fun w => { w with constants := w.constants.put name v }
    return v

/-- The class of a name. -/
def className? (name : String) : Option ClassName :=
  let classes := BuilderKind.all.map ClassName.builder ++ [.attributeMap, .settingsStore] ++
    ErrorClass.all.map ClassName.error ++ Schema.all.map fun s => ClassName.schema s.name
  classes.find? (·.name == name)

end PageMeta.Library
