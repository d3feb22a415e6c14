import PageMeta.Object.Binding
import PageMeta.Settings.Load
import PageMeta.Settings.Rules

/-!
# Calls of functions of settings stores

A function of settings stores takes the store it is about as its first argument, which can be any
object that has what the function looks for.
-/

namespace PageMeta.Settings

variable {κ : Type}

/-- The written form of a store, by its scalars. -/
def storeText (s : Value) : Heap.Action Value := do
  let siteName ← Object.getAttribute s "site_name"
  let locale ← Object.getAttribute s "default_locale"
  let locales ← Object.getAttribute s "available_locales"
  let h ← get
  return .newText ("ConfigStore(" ++ Heap.argumentText
    [("site_name", h.written siteName), ("default_locale", h.written locale),
     ("available_locales", h.written locales)] ++ ")")

/-- Calls a function of settings stores. -/
def callFunction (call : Caller κ) (s : Value) (name : String) (values : List Value) :
    Action κ Value := do
  match name, values with
  | "load_from_dict", [data] => load call s data
  | "section", [name] => Action.onHeap (findSection s name)
  | "validate", _ => validate call s
  | "to_dict", _ => toDict call s
  | "__repr__", _ => Action.onHeap (storeText s)
  | "__init__", _ => do
    Action.onHeap (restart s)
    return .none
  | _, _ =>
    match SectionName.features.find? fun sec => sec.query == name with
    | some sec => .bool <$> isEnabled call s sec
    | none => throw (Object.unknownFunction .settingsStore name)

/-- Calls a function of what sections are called on the class of stores. -/
def callHandleFunction (v : Value) (name : String) (values : List Value) : Heap.Action Value := do
  match name, values, v with
  | "__get__", .none :: _, _ => return v
  | "__get__", store :: _, .sectionHandle sec => do
    let sections ← Object.getAttribute store "_sections"
    Heap.ask fun h => Object.getItem h sections (.ofText sec.name)
  | "__set__", _, .sectionHandle sec => throw (.fixedSection sec)
  | "__get__", _, _ | "__set__", _, _ => throw (Object.lack (← get) v "_name")
  | "__set_name__", [_, name], _ => do
    match v with
    | .sectionHandle _ => pure ()
    | _ =>
      Object.setAttribute v "_name" name
    return .none
  | _, _, _ => throw (Object.unknownFunction .sectionHandle name)

end PageMeta.Settings
