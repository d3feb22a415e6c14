import PageMeta.Proofs.AttributeMap.Owning
import PageMeta.Proofs.Settings.Again
import PageMeta.Proofs.Settings.Edits

/-!
# The shape of a store

A store has the same eight maps as its sections for good.  They cannot be replaced, and no operation
takes a key away from a map.  A store is always written down under the same eleven names.

## Key results

- `acyclic_of_toDict`: a map that can be written out has no cycles
- `toDict_shaped`: what a store is written down as has the eleven names
- `StoreUse.kept`: what any use of a store leaves as it is
- `shape_kept`: the shape of a store after any use
-/

namespace PageMeta

namespace Heap

variable {h h' : Heap} {v w : Value}

/-! ### Maps that can be written out -/

/-- What stands one step down a value that can be read can be read with one level less. -/
theorem treeTo_child? {n : Nat} {u : Tree Key} {b : Branch}
    (hu : h.treeTo .stored (n + 1) v = .ok u) (hb : h.child? .stored v b = some w) :
    ∃ u', h.treeTo .stored n w = .ok u' := by
  -- the value is taken apart as a list or as a map, in the same way in which the step goes down
  cases hi : h.items? .stored v with
  | some items =>
    rw [treeTo_of_items? .stored n hi] at hu
    obtain ⟨us, hus, -⟩ := exists_of_map_ok hu
    have hmem : w ∈ items := by
      rcases mem_of_child? hb with ⟨items', hi', hmem⟩ | ⟨entries, he, -⟩
      · rw [hi] at hi'
        cases hi'
        exact hmem
      · rw [entries?_eq_none_of_items? hi] at he
        cases he
    obtain ⟨u', -, hu'⟩ := exists_of_forall₂ (forall₂_of_mapM hus) w hmem
    exact ⟨u', hu'⟩
  | none =>
    rcases mem_of_child? hb with ⟨items, hi', -⟩ | ⟨entries, he, p, hp, rfl⟩
    · rw [hi] at hi'
      cases hi'
    · rw [treeTo_stored_of_entries? n he] at hu
      obtain ⟨us, hus, -⟩ := exists_of_map_ok hu
      obtain ⟨q, -, hq⟩ := exists_of_forall₂ (forall₂_of_mapM hus) p hp
      obtain ⟨u', hu', -⟩ := exists_of_bind_pure hq
      exact ⟨u', hu'⟩

/-- What stands further down can be read with as many levels less. -/
theorem treeTo_at? {way : List Branch} : ∀ {n : Nat} {v : Value} {u : Tree Key},
    h.treeTo .stored n v = .ok u → h.at? .stored v way = some w →
    way.length < n ∧ ∃ u', h.treeTo .stored (n - way.length) w = .ok u' := by
  induction way with
  | nil =>
    intro n v u hu hw
    cases hw
    cases n with
    | zero => cases hu
    | succ n => exact ⟨Nat.succ_pos n, u, hu⟩
  | cons b way ih =>
    intro n v u hu hw
    cases n with
    | zero => cases hu
    | succ n =>
      obtain ⟨x, hx, hw⟩ := Option.bind_eq_some_iff.mp hw
      obtain ⟨u', hu'⟩ := treeTo_child? hu hx
      obtain ⟨hlt, hread⟩ := ih hu' hw
      simp only [List.length_cons, Nat.add_lt_add_iff_right, Nat.add_sub_add_right]
      exact ⟨hlt, hread⟩

/-- A value that can be read has no cycles: going round one takes levels away until none is left. -/
theorem acyclic_of_treeTo {n : Nat} {u : Tree Key} (hu : h.treeTo .stored n v = .ok u) :
    h.Acyclic .stored v := by
  intro way below w hw hback
  by_contra hne
  have hpos : 0 < below.length := List.length_pos_iff.mpr hne
  have hnever : ∀ (m : Nat) (u : Tree Key), h.treeTo .stored m w ≠ .ok u := by
    intro m
    induction m using Nat.strongRecOn with
    | ind m ih =>
      intro u hu
      obtain ⟨hlt, u', hu'⟩ := treeTo_at? hu hback
      exact ih (m - below.length) (by omega) u' hu'
  obtain ⟨-, u', hu'⟩ := treeTo_at? hu hw
  exact hnever _ u' hu'

/-- A map that can be written out has no cycles. -/
theorem acyclic_of_toDict {m : Ref} (hrun : AttributeMap.toDict m h = .ok w h') :
    h.Acyclic .stored (.ref m) := by
  cases htree : h.tree .stored (.ref m) with
  | error e =>
    simp only [AttributeMap.toDict, unwrap, ask, htree, bind, EStateM.bind] at hrun
    cases hrun
  | ok u => exact acyclic_of_treeTo htree

end Heap

namespace Settings

open Heap

variable {h h' : Heap} {c : Cells} {scalar : String → Value} {v : Value} {κ : Type}
  {call : Caller κ} {w w' w₁ w₂ : World κ}

/-! ### What a store is written down as -/

/-- The names under which a store is written down. -/
def storeNames : List String := scalarNames ++ SectionName.all.map SectionName.name

example : storeNames = ["site_name", "default_locale", "available_locales", "meta_tags", "open_graph",
    "twitter", "structured_data", "sitemap", "robots", "images", "i18n"] := by decide

/-- Whether a value is a dictionary with the names of a store, in order, that has a dictionary for
every section. -/
def Shaped (h : Heap) (v : Value) : Prop :=
  ∃ d entries, v = .ref d ∧ h.read d = some (.dict entries) ∧
    Entries.keys entries = storeNames.map Key.ofText ∧
    ∀ name : SectionName, ∃ m es, entries.get? (Key.ofText name.name) = some (.ref m) ∧
      h.read m = some (.dict es)

/-- The map of a section that can be written out is written out as a dictionary. -/
theorem exists_of_plainOf {m : Ref} (hs : w.heap.Sound) (hm : w.heap.isMap (.ref m) = true)
    (hrun : plainOf call (.ref m) w = .ok v w') :
    Grows .plain w.heap w'.heap ∧ ∃ d es, v = .ref d ∧ w'.heap.read d = some (.dict es) := by
  simp only [plainOf, bind, EStateM.bind, run_get, hm, Action.onHeap] at hrun
  cases htoDict : AttributeMap.toDict m w.heap with
  | error e g => rw [htoDict] at hrun; cases hrun
  | ok x g =>
    rw [htoDict] at hrun
    cases hrun
    obtain ⟨t, ht⟩ := hs.exists_reads hm (acyclic_of_toDict htoDict)
    obtain ⟨x, g, hunwrap, hg, hread⟩ := unwrap_grows hs ht
    have hsame := htoDict.symm.trans hunwrap
    cases hsame
    -- the map shows a map, so what it is written out as is a dictionary
    cases t with
    | map ts =>
      obtain ⟨d, es, rfl, hd⟩ := dict_of_reads hread
      exact ⟨hg, d, es, rfl, hd⟩
    | leaf _ | list _ =>
      have hisMap := ht.isMap_iff.mpr (ht.isMap_stored.mp hm)
      cases hisMap

/-- The sections that can be written down are written down as dictionaries, each under its name. -/
theorem exists_of_sectionDicts : ∀ {sections : List SectionName} {w w' : World κ}
    {es : Entries String Value}, w.heap.Sound → Layout w.heap c scalar →
    sectionDicts call (.ref c.store) sections w = .ok es w' →
    Grows .plain w.heap w'.heap ∧ List.Forall₂ (fun name p => p.1 = name.name ∧
      ∃ d entries, p.2 = .ref d ∧ w'.heap.read d = some (.dict entries)) sections es
  | [], w, _, _, hs, _, hrun => by
    cases hrun
    exact ⟨.refl hs, .nil⟩
  | name :: rest, w, w', es, hs, hc, hrun => by
    rw [sectionDicts] at hrun
    obtain ⟨m, w₁, hnamed, hrun⟩ := exists_of_bind_ok hrun
    rw [sectionNamed_ok hc] at hnamed
    cases hnamed
    obtain ⟨v, w₁, hplain, hrun⟩ := exists_of_bind_ok hrun
    obtain ⟨others, w₂, hrest, hrun⟩ := exists_of_bind_ok hrun
    cases hrun
    obtain ⟨hg₁, d, entries, rfl, hd⟩ := exists_of_plainOf hs (hc.map name) hplain
    obtain ⟨hg₂, hothers⟩ :=
      exists_of_sectionDicts hg₁.sound (hc.keepsFree hg₁.keepsFree) hrest
    exact ⟨hg₁.trans hg₂, .cons ⟨rfl, d, entries, rfl, hg₂.cells.read_of_some hd⟩ hothers⟩

/-- A store that can be written down is written down as a dictionary with its names. -/
theorem toDict_shaped (hs : w.heap.Sound) (hc : Layout w.heap c scalar)
    (hrun : toDict call (.ref c.store) w = .ok v w') : Shaped w'.heap v := by
  have hfine : ∀ name ∈ scalarNames, w.heap.Fine (scalar name) := fun name hn =>
    fine_scalar hs hc hn
  have hattr : ∀ name ∈ scalarNames,
      Action.onHeap (Object.getAttribute (.ref c.store) name) w = .ok (scalar name) w :=
    fun name hn => run_onHeap_ok (getAttribute_scalar hc hn (hfine name hn).1)
  obtain ⟨locales, h₁, hcopy, hg₁, -, -⟩ :=
    copyScalar_takes hs (hfine "available_locales" (by decide))
  simp only [toDict] at hrun
  rw [run_bind_ok (hattr "site_name" (by decide)), run_bind_ok (hattr "default_locale" (by decide)),
    run_bind_ok (hattr "available_locales" (by decide)), run_bind_ok (run_onHeap_ok hcopy)] at hrun
  obtain ⟨sections, w₂, hsections, hrun⟩ := exists_of_bind_ok hrun
  cases hrun
  obtain ⟨hg₂, hshown⟩ := exists_of_sectionDicts (w := { w with heap := h₁ }) hg₁.sound
    (hc.keepsFree hg₁.keepsFree) hsections
  -- the entries are the scalars and then the sections, in the order in which they are declared
  have hkeys : SectionName.all.map SectionName.name = Entries.keys sections := by
    rw [Entries.keys, ← List.forall₂_eq_eq_eq, List.forall₂_map_left_iff, List.forall₂_map_right_iff]
    exact hshown.imp fun _ _ hp => hp.1.symm
  have hnodup : (Entries.keys (writtenEntries scalar locales sections)).Nodup :=
    nodup_writtenEntries (hshown.imp fun _ _ hp => hp.1)
  refine ⟨_, textKeys (writtenEntries scalar locales sections), rfl, read_alloc_new _ _, ?_,
    fun name => ?_⟩
  · rw [storeNames, hkeys, Entries.keys, Entries.keys, textKeys, List.map_map, writtenEntries]
    simp only [scalarNames, List.map_append, List.map_cons, List.map_nil, List.map_map]
    rfl
  · obtain ⟨p, hp, heq, d, entries, hd, hread⟩ := exists_of_forall₂ hshown name (mem_all name)
    have hmem : p ∈ writtenEntries scalar locales sections := List.mem_append_right _ hp
    refine ⟨d, entries, ?_, read_alloc_old _ _ _ (lt_size_of_read hread) |>.trans hread⟩
    rw [← heq, ← hd]
    exact (apart_textKeys hnodup).get?_of_mem (List.mem_map_of_mem (f := fun q => (Key.ofText q.1, q.2)) hmem)

/-- A store whose sections have no cycles can be written down. -/
theorem exists_toDict (call : Caller κ) (hs : w.heap.Sound) (hc : Layout w.heap c scalar)
    (ha : ∀ name, w.heap.Acyclic .stored (.ref (c.map name))) :
    ∃ v w', toDict call (.ref c.store) w = .ok v w' := by
  choose part hpart using fun name => hs.exists_reads (hc.map name) (ha name)
  obtain ⟨t, h', hrun, -⟩ := toDict_displays call ⟨hs, hc, hpart⟩
  exact ⟨_, _, hrun⟩

/-! ### Parts that stay -/

/-- A section cannot be replaced. -/
theorem setAttribute_section (hc : Layout h c scalar) (name : SectionName) (v : Value) :
    Object.setAttribute (.ref c.store) name.name v h = .error (.fixedSection name) h := by
  have hplain : name.name ≠ "__class__" ∧ SectionName.ofName? name.name = some name ∧
      name.name.startsWith "__" = false := by cases name <;> decide +kernel
  have hassign : Store.assign c.attributes name.name v h = .error (.fixedSection name) h := by
    simp only [Store.assign, hplain]
    rfl
  have hplace : Object.place (.ref c.store) name.name v h =
      Store.assign c.attributes name.name v h := by
    simp only [Object.place, bind, EStateM.bind, run_get, hplain, hc.store, if_false,
      Bool.false_eq_true]
  simp only [Object.setAttribute, bind, EStateM.bind, run_get, cell?, hc.store, hplace, hassign]

/-- A section is found under every value that names it, and nothing is found under others. -/
theorem findSection_named (hc : Layout h c scalar) {name : SectionName}
    (hv : namedSection? v = some name) :
    findSection (.ref c.store) v h = .ok (.ref (c.map name)) h := by
  have hnamed : namedSection? (.ofText name.name) = some name := by cases name <;> decide
  have hfind := findSection_ok hc name
  simp only [findSection, hnamed] at hfind
  simp only [findSection, hv]
  exact hfind

/-! ### Use of a store -/

/-- What can be done with a store: it is changed, sections are looked up, and it is tried to replace
one. -/
inductive StoreStep where
  | change (step : StoreCall)
  | lookUp (name : Value)
  | replace (name : SectionName) (value : Value)

namespace StoreStep

/-- Does what a step says. -/
def run (call : Caller κ) (s : Value) : StoreStep → Action κ Unit
  | change step => step.run call s
  | lookUp name => discard (Action.onHeap (findSection s name))
  | replace name value => Action.onHeap (Object.setAttribute s name.name value)

/-- Whether what a step loads, assigns or writes is there. -/
def Made (h : Heap) : StoreStep → Prop
  | change step => step.Made h
  | lookUp _ | replace _ _ => True

end StoreStep

/-- Whether a world can be reached from another by building arguments, by writing to containers, and
by steps with a store, whether they succeed or fail. -/
inductive StoreUse (call : Caller κ) (s : Value) (start : World κ) : World κ → Prop
  | start : StoreUse call s start start
  | build {w : World κ} {h' : Heap} : StoreUse call s start w → Extends w.heap h' →
      AttributeMap.Arguments w.heap.size h' → StoreUse call s start { w with heap := h' }
  | edit {w : World κ} {h' : Heap} : StoreUse call s start w → Edit w.heap h' →
      StoreUse call s start { w with heap := h' }
  | step {w : World κ} (step : StoreStep) : StoreUse call s start w → step.Made w.heap →
      StoreUse call s start (stateAfter (step.run call s) w)

/-- A later heap in which a store stands where it did, and no map has lost a key. -/
structure Kept (c : Cells) (h h' : Heap) : Prop where
  placed : Placed c h'
  keys : HasKeys h h'

/-- What is written is no map, and nothing in which a map keeps its entries. -/
theorem Edit.keys (he : Edit h h') (hs : h.Sound) : HasKeys h h' := by
  cases he with
  | @list r old items hr _ _ =>
    have hfree : h.Free r := hs.free_of_read hr fun _ heq => by cases heq
    exact .write (fun data hm => by rw [hr] at hm; cases hm) hfree
  | @dict r old entries hr hf _ _ => exact .write (fun data hm => by rw [hr] at hm; cases hm) hf

/-- A step leaves a store where it is, and takes no key away. -/
theorem StoreStep.kept (call : Caller κ) {step : StoreStep} (hp : Placed c w.heap)
    (hm : step.Made w.heap) : Kept c w.heap (stateAfter (step.run call (.ref c.store)) w).heap := by
  obtain ⟨hs, scalar, hc⟩ := hp
  have hsame : Kept c w.heap w.heap := ⟨⟨hs, scalar, hc⟩, .of_extends (.refl _ _)⟩
  -- looking a section up changes nothing, and neither does an attempt to replace one
  cases step with
  | change step =>
    have hplaced := step.after_placed call ⟨hs, scalar, hc⟩ hm
    have hedits := (step.after_edits call hs hc hm).1
    rw [StoreCall.after_eq] at hplaced hedits
    exact ⟨hplaced, hedits.keys⟩
  | lookUp name =>
    cases hname : namedSection? name with
    | none =>
      have hrun : StoreStep.run call (.ref c.store) (.lookUp name) w =
          .error (.unknownSection (w.heap.display name)) w := by
        simp only [run, findSection, hname]
        rfl
      rw [stateAfter_eq hrun]
      exact hsame
    | some sec =>
      have hrun : StoreStep.run call (.ref c.store) (.lookUp name) w = .ok () w := by
        refine run_discard_ok (a := .ref (c.map sec)) ?_
        simp only [Action.onHeap, findSection_named hc hname]
      rw [stateAfter_eq hrun]
      exact hsame
  | replace name value =>
    have hrun : StoreStep.run call (.ref c.store) (.replace name value) w =
        .error (.fixedSection name) w := by
      simp only [run, Action.onHeap, setAttribute_section hc]
    rw [stateAfter_eq hrun]
    exact hsame

/-- Whatever is done with a store, it stays where it is, and no map loses a key. -/
theorem StoreUse.kept (hu : StoreUse call (.ref c.store) w w') (hp : Placed c w.heap) :
    Kept c w.heap w'.heap := by
  induction hu with
  | start => exact ⟨hp, .of_extends (.refl _ _)⟩
  | build _ he hn ih =>
    have hg := AttributeMap.grows_of_arguments ih.placed.1 he hn
    exact ⟨ih.placed.keepsFree hg.keepsFree, ih.keys.trans (.of_extends he)⟩
  | edit _ he ih =>
    obtain ⟨hs, scalar, hc⟩ := ih.placed
    exact ⟨⟨he.sound hs, scalar, he.layout hc⟩, ih.keys.trans (he.keys hs)⟩
  | step step _ hm ih =>
    have hkept := StoreStep.kept call ih.placed hm
    exact ⟨hkept.placed, ih.keys.trans hkept.keys⟩

/-- The shape of a store that has some maps as its sections. -/
structure Shape (call : Caller κ) (s : Value) (map : SectionName → Ref) (w : World κ) : Prop where
  /-- The sections are attribute maps. -/
  maps : ∀ name, w.heap.isMap (.ref (map name)) = true
  /-- An attempt to replace one is refused and changes nothing. -/
  refuses : ∀ name value, ∃ e, e.kind = "ConfigurationError" ∧
    Action.onHeap (Object.setAttribute s (SectionName.name name) value) w = .error e w
  /-- Each is found as an attribute, and under every value that names it. -/
  found : ∀ name, sectionOf s name w = .ok (.ref (map name)) w
  lookUp : ∀ v name, namedSection? v = some name →
    Action.onHeap (findSection s v) w = .ok (.ref (map name)) w
  /-- The store is written down under its names, with a dictionary for every section; that fails only
  if a section has a cycle. -/
  shaped : ∀ v w', toDict call s w = .ok v w' → Shaped w'.heap v
  total : (∀ name, w.heap.Acyclic .stored (.ref (map name))) → ∃ v w', toDict call s w = .ok v w'

theorem Placed.shape (call : Caller κ) (hp : Placed c w.heap) :
    Shape call (.ref c.store) c.map w := by
  obtain ⟨hs, scalar, hc⟩ := hp
  refine ⟨hc.map, fun name value => ⟨.fixedSection name, rfl, ?_⟩, sectionOf_ok hc.equipped,
    fun v name hv => ?_, fun v w' => toDict_shaped hs hc, exists_toDict call hs hc⟩
  · simp only [Action.onHeap, setAttribute_section hc]
  · simp only [Action.onHeap, findSection_named hc hv]

/-- A store keeps the shape in which it was made, whatever is done with it: it has the same maps as
its sections, which keep all keys that they have at any time, and it is written down under the same
names. -/
theorem shape_kept {s : Value} {h₀ : Heap} (hs : w.heap.Sound)
    (hcreate : Store.create w.heap = .ok s h₀)
    (h₁ : StoreUse call s { w with heap := h₀ } w₁) (h₂ : StoreUse call s w₁ w₂) :
    ∃ map : SectionName → Ref, Shape call s map { w with heap := h₀ } ∧ Shape call s map w₁ ∧
      Shape call s map w₂ ∧
      ∀ name key, AttributeMap.contains w₁.heap (map name) (.ofText key) = true →
        AttributeMap.contains w₂.heap (map name) (.ofText key) = true := by
  obtain ⟨c, g, hrun, -, hx, -⟩ := create_stands hs
  rw [hcreate] at hrun
  cases hrun
  have hp : Placed c h₀ := ⟨hx.sound, hx.scalars.imp fun _ hc => hc.1⟩
  have hp₁ := (h₁.kept hp).placed
  have hkept := h₂.kept hp₁
  refine ⟨c.map, hp.shape (w := { w with heap := h₀ }) call, hp₁.shape call, hkept.placed.shape call,
    fun name key hkey => ?_⟩
  obtain ⟨hs₁, scalar, hc⟩ := hp₁
  exact hkept.keys.contains hs₁ (hc.map name) hkey

/-- Calls give back what is called. -/
def echo : Caller Unit := fun v _ => pure v

theorem shape_kept_replace : ∃ s h₀ w₁ w₂, Store.create .empty = .ok s h₀ ∧
    StoreUse echo s (newWorld h₀) w₁ ∧ StoreUse echo s w₁ w₂ ∧
    ∃ map : SectionName → Ref, Shape echo s map (newWorld h₀) ∧ Shape echo s map w₁ ∧
      Shape echo s map w₂ ∧
      ∀ name key, AttributeMap.contains w₁.heap (map name) (.ofText key) = true →
        AttributeMap.contains w₂.heap (map name) (.ofText key) = true := by
  obtain ⟨c, h₀, hcreate, -⟩ := create_stands AttributeMap.sound_empty
  -- it is tried to replace a section, and then a scalar is assigned
  obtain ⟨w₁, h₁⟩ : ∃ w₁, StoreUse echo (.ref c.store) (newWorld h₀) w₁ :=
    ⟨_, .step (.replace .sitemap (.bool true)) .start trivial⟩
  obtain ⟨w₂, h₂⟩ : ∃ w₂, StoreUse echo (.ref c.store) w₁ w₂ :=
    ⟨_, .step (.change (.assign "site_name" (.ofText "Shop"))) .start
      ⟨by decide, rfl, fun r heq => by cases heq⟩⟩
  exact ⟨_, h₀, w₁, w₂, hcreate, h₁, h₂,
    shape_kept (w := newWorld .empty) AttributeMap.sound_empty hcreate h₁ h₂⟩

end Settings

end PageMeta
