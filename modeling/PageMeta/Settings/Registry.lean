import PageMeta.Settings.Rules
import PageMeta.Settings.Store

/-!
# The current settings

One settings store is current.  It is made with the defaults when it is first asked for, changed
by mutators, and given up by a reset, after which the next access makes a new one.

* `configure` runs a mutator on the current store and checks the store afterwards.
* `featureState` tells whether a feature is on, off or unknown.
-/

namespace PageMeta.Registry

variable {κ : Type}

/-- The names of the features. -/
def featureNames : List String := SectionName.features.map SectionName.name

/-- The logger of the current settings. -/
def logger : String := "seo_builder.config.registry"

/-- The current store; makes it if there is none. -/
def current : Action κ Value := do
  match (← get).current with
  | some s => return .ref s
  | none =>
    match ← Action.onHeap Store.create with
    | .ref s => do
      modify fun w => { w with current := some s }
      Action.record .debug logger "created default configuration store"
      return .ref s
    | v => return v

/-- Gives the current store up. -/
def reset : Action κ Unit := do
  modify fun w => { w with current := none }
  Action.record .debug logger "configuration store reset"

/-- Checks a store by the `validate` it answers to. -/
def check (call : Caller κ) (store : Value) : Action κ Unit := do
  match ← Action.ask fun h => Object.lookup h store "validate" with
  | .method _ .settingsStore _ => discard (Settings.validate call store)
  | found => discard (Object.use call store "validate" found {})

/-- Runs a mutator on the current store and checks it; without one, gives the current store. -/
def configure (call : Caller κ) (mutator : Value) : Action κ Value := do
  let store ← current
  match mutator with
  | .none => return store
  | _ => do
    let h := (← get).heap
    if !Object.isCallable h mutator then throw (.mutatorNotCallable (h.typeName mutator))
    discard (call mutator (.of [store]))
    check call store
    let h := (← get).heap
    Action.record .debug logger ("configuration updated: " ++ h.written store)
    return store

/-- The section whose feature a value names. -/
def namedFeature? (name : Value) : Option SectionName :=
  SectionName.features.find? fun s => name.text? == some s.name

/-- Asks a store, or whatever stands in for one, whether the feature of a section is on. -/
def queryFeature (call : Caller κ) (target : Value) (feature : SectionName) : Action κ Bool := do
  match ← Action.ask fun h => Object.lookup h target feature.query with
  | .method _ .settingsStore _ => Settings.isEnabled call target feature
  | found => do
    let answer ← Object.use call target feature.query found {}
    Action.look fun h => h.truth answer

/-- The state of a feature, on a given store or on the current one. -/
def featureState (call : Caller κ) (name store : Value) : Action κ FeatureState := do
  match namedFeature? name with
  | none => return .unknown
  | some feature => do
    let target ← match store with
      | .none => current
      | _ => pure store
    return if ← queryFeature call target feature then .enabled else .disabled

/-- Whether a feature is on.  An unknown name is off and leaves a warning. -/
def enabled (call : Caller κ) (name store : Value) : Action κ Bool := do
  let state ← featureState call name store
  if state = .unknown then
    let h := (← get).heap
    Action.record .warning logger
      ("unknown feature name: " ++ h.display name ++ " (known: " ++
        String.intercalate ", " featureNames ++ ")")
  return state = .enabled

end PageMeta.Registry
