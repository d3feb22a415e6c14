import PageMeta.Proofs.AttributeMap.Kept
import PageMeta.Proofs.Heap.TreeShape
import PageMeta.Settings.Load

/-!
# How a store stands in the heap

A store is a cell over the dictionary of its attributes; one of them is a dictionary with the maps of
its sections.  No attribute map keeps its entries in these dictionaries, so they stay as they are
while sections are written.

## Key results

- `Layout`: where the parts of a store are
- `Equipped`: where it has them, whatever else it has
- `getAttribute_scalar`, `sectionNamed_ok`: the parts of a store are found
-/

namespace PageMeta.Settings

open Heap

/-- The cells of a store. -/
structure Cells where
  store : Ref
  attributes : Ref
  sections : Ref
  map : SectionName → Ref

/-- The attributes of a store by its scalars. -/
def attributeEntries (scalar : String → Value) (sections : Ref) : Entries Key Value :=
  Heap.textKeys (scalarNames.map (fun name => (name, scalar name)) ++
    [("_sections", .ref sections)])

/-- The sections of a store by their maps. -/
def sectionEntries (map : SectionName → Ref) : Entries Key Value :=
  SectionName.all.map fun name => (Key.ofText name.name, .ref (map name))

/-- Where the parts of a store are, and that no map keeps its entries there. -/
structure Layout (h : Heap) (c : Cells) (scalar : String → Value) : Prop where
  store : h.read c.store = some (.store c.attributes)
  attributes : h.read c.attributes = some (.dict (attributeEntries scalar c.sections))
  sections : h.read c.sections = some (.dict (sectionEntries c.map))
  map : ∀ name, h.isMap (.ref (c.map name)) = true
  free : ∀ r, r = c.store ∨ r = c.attributes ∨ r = c.sections → h.Free r

/-- Where a store has its scalars and the maps of its sections, whatever else it has. -/
structure Equipped (h : Heap) (c : Cells) (scalar : String → Value) : Prop where
  store : h.read c.store = some (.store c.attributes)
  scalars : ∀ name ∈ scalarNames,
    (h.entriesAt c.attributes).get? (Key.ofText name) = some (scalar name)
  sections : (h.entriesAt c.attributes).get? (Key.ofText "_sections") = some (.ref c.sections)
  parts : ∀ name : SectionName,
    Object.getItem h (.ref c.sections) (.ofText name.name) = .ok (.ref (c.map name))
  map : ∀ name, h.isMap (.ref (c.map name)) = true

variable {h h' : Heap} {c : Cells} {scalar : String → Value} {κ : Type} {call : Caller κ}
  {w : World κ}

/-- As long as the cells that belong to no map stay, the store is where it was. -/
theorem Layout.keepsFree (hc : Layout h c scalar) (hk : KeepsFree h h') : Layout h' c scalar := by
  have hkept : ∀ r cell, (r = c.store ∨ r = c.attributes ∨ r = c.sections) →
      h.read r = some cell → h'.read r = some cell := fun r cell hr hread =>
    (hk.free r (lt_size_of_read hread) (hc.free r hr)).1.trans hread
  refine ⟨hkept _ _ (.inl rfl) hc.store, hkept _ _ (.inr (.inl rfl)) hc.attributes,
    hkept _ _ (.inr (.inr rfl)) hc.sections, fun name => hk.maps _ (hc.map name), fun r hr => ?_⟩
  refine (hk.free r ?_ (hc.free r hr)).2
  rcases hr with rfl | rfl | rfl
  · exact lt_size_of_read hc.store
  · exact lt_size_of_read hc.attributes
  · exact lt_size_of_read hc.sections

/-- What lasts has the store where it was. -/
theorem Layout.lasts (hc : Layout h c scalar) (hl : Lasts h h') : Layout h' c scalar :=
  hc.keepsFree ⟨hl.toKeeps, hl.free⟩

/-! ### Finding the parts -/

theorem get?_scalar {name : String} (hn : name ∈ scalarNames) :
    (attributeEntries scalar c.sections).get? (Key.ofText name) = some (scalar name) := by
  simp only [scalarNames, List.mem_cons, List.not_mem_nil, or_false] at hn
  rcases hn with rfl | rfl | rfl <;> rfl

theorem fine_scalar (hs : h.Sound) (hc : Layout h c scalar) {name : String}
    (hn : name ∈ scalarNames) : h.Fine (scalar name) := by
  have hget : (attributeEntries scalar c.sections).get? (Key.ofText name) = some (scalar name) :=
    get?_scalar hn
  obtain ⟨k, hmem⟩ := Entries.exists_of_get? hget
  exact (hs.cells _ _ hc.attributes).2 _ hmem

theorem get?_section (map : SectionName → Ref) (name : SectionName) :
    (sectionEntries map).get? (Key.ofText name.name) = some (.ref (map name)) := by
  cases name <;> rfl

/-- A store that stands where it was made has everything that it was given. -/
theorem Layout.equipped (hc : Layout h c scalar) : Equipped h c scalar where
  store := hc.store
  scalars name hn := by
    rw [entriesAt_dict hc.attributes]
    exact get?_scalar hn
  sections := by
    rw [entriesAt_dict hc.attributes]
    rfl
  parts name := by
    have hkey : h.toKey (.ofText name.name) = .ok (Key.ofText name.name) := rfl
    simp only [Object.getItem, hc.sections, Object.dictItem, hkey, bind, Except.bind,
      get?_section c.map name]
    rfl
  map := hc.map

/-- What is kept under a name in the attributes of a store is found under the name, unless it means
something else. -/
theorem Equipped.lookup_kept {name : String} {v : Value} (hc : Equipped h c scalar)
    (hget : (h.entriesAt c.attributes).get? (Key.ofText name) = some v)
    (hplain : name ≠ "__class__" ∧ name ≠ "__hash__" ∧ name ≠ "__dict__")
    (hsection : SectionName.ofName? name = none) :
    Object.lookup h (.ref c.store) name = .ok (.stored v) := by
  have hkept : Object.kept? h c.attributes name = some (.stored v) := by
    rw [Object.kept?, hget]
    rfl
  simp [Object.lookup, hplain, Object.cellAttribute, hc.store, Object.storeAttribute, hsection,
    Object.firstOf, hkept, Object.onBehalf]

theorem Equipped.getAttribute_kept {name : String} {v : Value} (hc : Equipped h c scalar)
    (hget : (h.entriesAt c.attributes).get? (Key.ofText name) = some v)
    (hplain : name ≠ "__class__" ∧ name ≠ "__hash__" ∧ name ≠ "__dict__")
    (hsection : SectionName.ofName? name = none) (hv : v.isMade = true) :
    Object.getAttribute (.ref c.store) name h = .ok v h := by
  have hask : ask (fun h => Object.lookup h (.ref c.store) (Name.ofText name).text) h =
      .ok (.stored v) h := by
    rw [ask, Name.ofText, hc.lookup_kept hget hplain hsection]
  simp only [Object.getAttribute, bind, EStateM.bind, hask, settle_of_isMade hv]
  rfl

theorem Equipped.getAttribute_scalar {name : String} (hc : Equipped h c scalar)
    (hn : name ∈ scalarNames) (hv : (scalar name).isMade = true) :
    Object.getAttribute (.ref c.store) name h = .ok (scalar name) h := by
  have hget := hc.scalars name hn
  simp only [scalarNames, List.mem_cons, List.not_mem_nil, or_false] at hn
  rcases hn with rfl | rfl | rfl <;> exact hc.getAttribute_kept hget (by decide) (by decide) hv

/-- A scalar of a store is its attribute. -/
theorem getAttribute_scalar {name : String} (hc : Layout h c scalar) (hn : name ∈ scalarNames)
    (hv : (scalar name).isMade = true) :
    Object.getAttribute (.ref c.store) name h = .ok (scalar name) h :=
  hc.equipped.getAttribute_scalar hn hv

/-- Sections are asked for by a function of the class of stores. -/
theorem lookup_section (hc : Layout h c scalar) : Object.lookup h (.ref c.store) "section" =
    .ok (.method (.ref c.store) .settingsStore "section") := by
  have hkept : Object.kept? h c.attributes "section" = none := by
    rw [Object.kept?, entriesAt_dict hc.attributes]
    rfl
  have hclass : h.className (.ref c.store) = .settingsStore := by
    simp [className, hc.store, Cell.className]
  have hplain : Object.classFunction? .settingsStore "section" = none := by decide +kernel
  have hown : ClassName.settingsStore.definer? "section" = some .settingsStore := by
    decide +kernel
  -- no attribute and no section goes by the name, so the function of the class is what is left
  have hname : SectionName.ofName? "section" = none := by decide
  simp [Object.lookup, hclass, hplain, hown, Object.cellAttribute, hc.store,
    Object.storeAttribute, hname, Object.firstOf, hkept, Object.onBehalf]

theorem findSection_ok (hc : Layout h c scalar) (name : SectionName) :
    findSection (.ref c.store) (.ofText name.name) h = .ok (.ref (c.map name)) h := by
  have hnamed : namedSection? (.ofText name.name) = some name := by cases name <;> decide
  have hattr : Object.getAttribute (.ref c.store) "_sections" h = .ok (.ref c.sections) h :=
    hc.equipped.getAttribute_kept hc.equipped.sections (by decide) (by decide) rfl
  simp only [findSection, hnamed, bind, EStateM.bind, hattr, ask, hc.equipped.parts name]

/-- The map of a section is found under its name. -/
theorem sectionNamed_ok (hc : Layout w.heap c scalar) (name : SectionName) :
    sectionNamed call (.ref c.store) name w = .ok (.ref (c.map name)) w := by
  simp only [sectionNamed, Action.ask, Action.onHeap, bind, EStateM.bind, ask, lookup_section hc,
    findSection_ok hc name]

/-! ### Assigning a scalar -/

theorem put_attributes {name : String} {v : Value} (hn : name ∈ scalarNames) :
    (attributeEntries scalar c.sections).put (Key.ofText name) v =
      attributeEntries (Function.update scalar name v) c.sections := by
  simp only [scalarNames, List.mem_cons, List.not_mem_nil, or_false] at hn
  rcases hn with rfl | rfl | rfl <;> rfl

theorem setAttribute_scalar {name : String} {v : Value} (hc : Layout h c scalar)
    (hn : name ∈ scalarNames) : Object.setAttribute (.ref c.store) name v h =
      .ok () (h.write c.attributes
        (.dict (attributeEntries (Function.update scalar name v) c.sections))) := by
  have hput : (attributeEntries scalar c.sections).put (Key.ofText name) v =
      attributeEntries (Function.update scalar name v) c.sections := put_attributes hn
  have hplain : name ≠ "__class__" ∧ SectionName.ofName? name = none ∧
      name.startsWith "__" = false := by
    simp only [scalarNames, List.mem_cons, List.not_mem_nil, or_false] at hn
    rcases hn with rfl | rfl | rfl <;> decide +kernel
  have hdict : h.dict? c.attributes =
      some (c.attributes, attributeEntries scalar c.sections) := by
    simp [dict?, depth, dictTo, hc.attributes]
  have hassign : Store.assign c.attributes name v h = .ok () (h.write c.attributes
      (.dict (attributeEntries (Function.update scalar name v) c.sections))) := by
    simp only [Store.assign, hplain, putEntry, putEntries, entriesAt_dict hc.attributes, hput, hdict]
  have hplace : Object.place (.ref c.store) name v h = Store.assign c.attributes name v h := by
    simp only [Object.place, bind, EStateM.bind, run_get,
      hplain, hc.store, if_false, Bool.false_eq_true]
  simp only [Object.setAttribute, bind, EStateM.bind, run_get,
    cell?, hc.store, hplace, hassign]

end PageMeta.Settings
