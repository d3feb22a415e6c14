import PageMeta.Object.Assign

/-!
# Loading settings

Settings come as a dictionary with the scalars and sections of a store, and a store can be written
down as such a dictionary.

* `load` overwrites the scalars and merges the sections that a dictionary has, in a fixed order.
* `toDict` is the whole store as plain data.
-/

namespace PageMeta.Settings

variable {κ : Type}

/-- The scalars of a store, in the order in which they are loaded and shown. -/
def scalarNames : List String := ["site_name", "default_locale", "available_locales"]

/-- Gives a store the default settings. -/
def restart (s : Value) : Heap.Action Unit := do
  setEach (← Store.makeAttributes)
where
  /-- Stores values on the store one after the other. -/
  setEach : Entries String Value → Heap.Action Unit
    | [] => pure ()
    | (name, v) :: rest => do
      Object.setAttribute s name v
      setEach rest

/-! ## Sections -/

/-- The section that a value names: its text must be the name of a section. -/
def namedSection? (v : Value) : Option SectionName := v.text?.bind SectionName.ofName?

/-- The map of the section that a value names. -/
def findSection (s name : Value) : Heap.Action Value := do
  match namedSection? name with
  | some sec => do
    let sections ← Object.getAttribute s "_sections"
    Heap.ask fun h => Object.getItem h sections (.ofText sec.name)
  | none => throw (.unknownSection ((← get).display name))

/-- The map of a section, by what a store has to find sections. -/
def sectionNamed (call : Caller κ) (s : Value) (name : SectionName) : Action κ Value := do
  match ← Action.ask fun h => Object.lookup h s "section" with
  | .method _ .settingsStore _ => Action.onHeap (findSection s (.ofText name.name))
  | found => Object.use call s "section" found (.of [.ofText name.name])

/-! ## Loading -/

/-- A list is copied, anything else is taken as it is. -/
def copyScalar (v : Value) : Heap.Action Value := do
  match (← get).cell? v with
  | some (.list items) => Heap.newList items
  | _ => return v

/-- Loads the scalars that a dictionary has. -/
def loadScalars (s : Value) (data : Entries Key Value) : List String → Heap.Action Unit
  | [] => pure ()
  | name :: rest => do
    match data.get? (Key.ofText name) with
    | some v => Object.setAttribute s name (← copyScalar v)
    | none => pure ()
    loadScalars s data rest

/-- Merges a value into what stands for a section. -/
def mergeInto (call : Caller κ) (target incoming : Value) : Action κ Unit := do
  match target, (← get).heap.isMap target with
  | .ref m, true => discard (Action.onHeap (AttributeMap.merge m incoming))
  | _, _ => discard (Object.send call target "merge" (.of [incoming]))

/-- Merges the sections that a dictionary has with a value that is not absent.  The dictionary is
read as it is when a section's turn comes. -/
def loadSections (call : Caller κ) (s : Value) (data : Ref) : List SectionName → Action κ Unit
  | [] => pure ()
  | name :: rest => do
    match (((← get).heap.entriesAt data).get? (Key.ofText name.name)).getD .none with
    | .none => pure ()
    | incoming => do
      let target ← sectionNamed call s name
      mergeInto call target incoming
    loadSections call s data rest

/-- Loads settings from a dictionary. -/
def load (call : Caller κ) (s data : Value) : Action κ Value := do
  let h := (← get).heap
  match data, h.cell? data with
  | .ref r, some (.dict entries) => do
    Action.onHeap (loadScalars s entries scalarNames)
    loadSections call s r SectionName.all
    return s
  | _, _ => throw (.settingsNotMapping (h.typeName data))

/-! ## Writing down -/

/-- What stands for a section as plain data. -/
def plainOf (call : Caller κ) (map : Value) : Action κ Value := do
  match map, (← get).heap.isMap map with
  | .ref m, true => Action.onHeap (AttributeMap.toDict m)
  | _, _ => Object.send call map "to_dict" {}

/-- Sections as plain data, each under its name. -/
def sectionDicts (call : Caller κ) (s : Value) :
    List SectionName → Action κ (Entries String Value)
  | [] => pure []
  | name :: rest => do
    let map ← sectionNamed call s name
    let plain ← plainOf call map
    let others ← sectionDicts call s rest
    return (name.name, plain) :: others

/-- The whole store as plain data. -/
def toDict (call : Caller κ) (s : Value) : Action κ Value := do
  let kept := fun name : String => Action.onHeap (Object.getAttribute s name)
  let siteName ← kept "site_name"
  let locale ← kept "default_locale"
  let locales ← kept "available_locales"
  let locales ← Action.onHeap (copyScalar locales)
  let sections ← sectionDicts call s SectionName.all
  Action.onHeap (Heap.newDict (Heap.textKeys ([("site_name", siteName),
    ("default_locale", locale), ("available_locales", locales)] ++ sections)))

end PageMeta.Settings
