import PageMeta.Heap.Trees
import PageMeta.Settings.Defaults

/-!
# Settings stores

A store keeps its attributes by name: three scalars, the attribute maps of the sections, and
whatever else is stored on it.  The scalars can be assigned; the maps of the sections are there for
good and change by writing into them or by loading a mapping.

Nothing is checked when values are stored (`PageMeta.Settings.Rules` says what is checked later).
-/

namespace PageMeta.Store

/-- Makes the maps of the sections, with the default settings. -/
def makeSections : List SectionName → Heap.Action (Entries Key Value)
  | [] => pure []
  | name :: rest => do
    let map ← Heap.buildText .wrapped (Settings.defaultSection name)
    let others ← makeSections rest
    return (Key.ofText name.name, map) :: others

/-- Makes the attributes of a store with the default settings. -/
def makeAttributes : Heap.Action (Entries String Value) := do
  let locales ← Heap.buildText .plain Settings.defaultLocales
  let sections ← Heap.newDict (← makeSections SectionName.all)
  return [("site_name", Settings.defaultSiteName), ("default_locale", Settings.defaultLocale),
    ("available_locales", locales), ("_sections", sections)]

/-- Makes a store with the default settings. -/
def create : Heap.Action Value := do
  let attributes ← Heap.alloc (.dict (Heap.textKeys (← makeAttributes)))
  return .ref (← Heap.alloc (.store attributes))

/-- Stores a value on a store, given the dictionary of its attributes.  Sections cannot be
replaced. -/
def assign (attributes : Ref) (name : String) (v : Value) : Heap.Action Unit := do
  match SectionName.ofName? name with
  | some sec => throw (.fixedSection sec)
  | none => Heap.putEntry attributes (Key.ofText name) v

end PageMeta.Store
