import PageMeta.Proofs.Heap.Twins
import PageMeta.Proofs.Settings.ExactLoading

/-!
# Loading twice

A store is written down with trees for its sections and with its scalars as they are, except that a
list of locales is copied.  Loading the same dictionary again takes over the same scalars, and it
merges the same trees into the sections.  A section is copied into place where there was no map, but
merged into the map from then on, which is the same unless two keys of one level have the same text
and maps as values.

## Key results

- `toDict_displays`: what a store is written down as, whatever it holds
- `load_load`: loading a second time makes no difference to what is written down
-/

namespace PageMeta.Settings

open Heap
open AttributeMap (Part Shows)

variable {h h' h'' : Heap} {c : Cells} {scalar scalar' : String → Value}
  {part : SectionName → Tree String} {t : Tree String} {v x y z : Value} {data : Ref}
  {es : Entries Key Value} {κ : Type} {w w₁ : World κ}

/-! ### Lists side by side -/

/-- Lists that are each beside one list are beside each other. -/
theorem forall₂_of_forall₂ {α β γ : Type} {R : α → β → Prop} {S : α → γ → Prop} {T : β → γ → Prop}
    (hT : ∀ a b c, R a b → S a c → T b c) {as : List α} {bs : List β} {cs : List γ}
    (hR : List.Forall₂ R as bs) (hS : List.Forall₂ S as cs) : List.Forall₂ T bs cs := by
  induction hR generalizing cs with
  | nil => cases hS; exact .nil
  | cons hab _ ih => cases hS with | cons hac hS => exact .cons (hT _ _ _ hab hac) (ih hS)

/-- Dictionaries that have the same texts as keys, in the same order, are equal if their values
are. -/
theorem sameEntries_textKeys {same : Value → Value → Bool} {ds es : Entries String Value}
    (hn : (Entries.keys es).Nodup)
    (hsame : List.Forall₂ (fun p q => p.1 = q.1 ∧ same p.2 q.2 = true) ds es) :
    sameEntries same (textKeys ds) (textKeys es) = true := by
  refine sameEntries_iff.mpr ⟨by simp [textKeys, hsame.length_eq], fun p hp => ?_⟩
  obtain ⟨q, hq, rfl⟩ := List.mem_map.mp hp
  obtain ⟨q', hq', hkey, hvalue⟩ := exists_of_forall₂ hsame q hq
  refine ⟨q'.2, ?_, hvalue⟩
  rw [hkey]
  exact (apart_textKeys hn).get?_of_mem (List.mem_map_of_mem hq')

/-! ### Values that cannot be told apart -/

/-- Whether two values are one, or lists of the same items. -/
def Twins (h : Heap) (x y : Value) : Prop :=
  x = y ∨ ∃ items, h.cell? x = some (.list items) ∧ h.cell? y = some (.list items)

/-- Lists that stay are lists of the same items. -/
theorem cell?_later {items : List Value}
    (hl : ∀ r items, h.read r = some (.list items) → h'.read r = some (.list items))
    (hc : h.cell? v = some (.list items)) : h'.cell? v = some (.list items) := by
  cases v with
  | ref r => exact hl r items hc
  | _ => cases hc

namespace Twins

theorem symm (ht : Twins h x y) : Twins h y x :=
  ht.imp Eq.symm fun ⟨items, hx, hy⟩ => ⟨items, hy, hx⟩

theorem trans (h₁ : Twins h x y) (h₂ : Twins h y z) : Twins h x z := by
  rcases h₁ with rfl | ⟨items, hx, hy⟩
  · exact h₂
  · rcases h₂ with rfl | ⟨items', hy', hz⟩
    · exact .inr ⟨items, hx, hy⟩
    · rw [hy] at hy'
      cases hy'
      exact .inr ⟨items, hx, hz⟩

theorem later (ht : Twins h x y)
    (hl : ∀ r items, h.read r = some (.list items) → h'.read r = some (.list items)) :
    Twins h' x y :=
  ht.imp_right fun ⟨items, hx, hy⟩ => ⟨items, cell?_later hl hx, cell?_later hl hy⟩

/-- Twins are equal to the same values. -/
theorem sameTo_congr (ht : Twins h x y) (n : Nat) : SameTo (h.sameTo (n + 2) true) x y := by
  rcases ht with rfl | ⟨items, hx, hy⟩
  · exact fun v => ⟨rfl, rfl⟩
  · have href : ∀ {v : Value}, h.cell? v = some (.list items) →
        ∃ r, v = .ref r ∧ h.contentAt r = some (.list items) := fun {v} hv => by
      cases v with
      | ref r => exact ⟨r, rfl, contentAt_of_read hv fun _ heq => by cases heq⟩
      | _ => cases hv
    obtain ⟨r, rfl, hr⟩ := href hx
    obtain ⟨s, rfl, hs⟩ := href hy
    exact sameTo_ref_congr hr hs (agree_refl n items) (agree_refl n items) fun b => ⟨rfl, rfl⟩

end Twins

/-- What was taken over cannot be told from what it was. -/
theorem TakenOver.twins (ht : TakenOver h h' v x)
    (hl : ∀ r items, h.read r = some (.list items) → h'.read r = some (.list items)) :
    Twins h' v x := by
  unfold TakenOver at ht
  split at ht
  · rename_i items hc
    obtain ⟨r, rfl, -, hr⟩ := ht
    exact .inr ⟨items, cell?_later hl hc, hr⟩
  · exact .inl ht.symm

/-! ### Writing down -/

/-- The entries that a store is written down as. -/
def writtenEntries (scalar : String → Value) (locales : Value) (sections : Entries String Value) :
    Entries String Value :=
  [("site_name", scalar "site_name"), ("default_locale", scalar "default_locale"),
    ("available_locales", locales)] ++ sections

/-- Whether a dictionary is what a store is written down as, with the trees of its sections read from
cells in `within` only. -/
structure WrittenDown (within : Ref → Prop) (scalar : String → Value)
    (part : SectionName → Tree String) (t : Ref) (h : Heap) : Prop where
  own : t.index < h.size ∧ within t
  shows : ∃ locales sections,
    h.read t = some (.dict (textKeys (writtenEntries scalar locales sections))) ∧
    Twins h (scalar "available_locales") locales ∧
    List.Forall₂ (fun name p => p.1 = name.name ∧ h.Reads .plain within (part name) p.2 ∧
      (part name).height < h.size) SectionName.all sections

/-- Whether a store is at some cells and its sections show some trees.  The sections may share cells. -/
structure Displays (h : Heap) (c : Cells) (scalar : String → Value)
    (part : SectionName → Tree String) : Prop where
  sound : h.Sound
  layout : Layout h c scalar
  reads : ∀ name, Shows h .stored (part name) (.ref (c.map name))

theorem Holds.displays (hx : Holds h c scalar part) : Displays h c scalar part :=
  ⟨hx.sound, hx.layout, hx.reads⟩

theorem Displays.grows {building : Building} (hx : Displays h c scalar part)
    (hg : Grows building h h') : Displays h' c scalar part :=
  ⟨hg.sound, hx.layout.keepsFree hg.keepsFree, fun name =>
    ((hx.reads name).extends hg.cells).mono fun _ _ => trivial⟩

/-- The map of a section is written out in new cells. -/
theorem plainOf_displays (call : Caller κ) {m : Ref} (hs : w.heap.Sound)
    (hm : w.heap.isMap (.ref m) = true) (hr : Shows w.heap .stored t (.ref m)) :
    ∃ v h', plainOf call (.ref m) w = .ok v { w with heap := h' } ∧ Grows .plain w.heap h' ∧
      h'.Reads .plain w.heap.Vacant t v := by
  obtain ⟨v, h', hrun, hg, hread⟩ := unwrap_grows hs hr
  have htoDict : AttributeMap.toDict m w.heap = .ok v h' := hrun
  refine ⟨v, h', ?_, hg, hread⟩
  simp only [plainOf, bind, EStateM.bind, run_get, hm, Action.onHeap, htoDict]

/-- The sections are written down in order. -/
theorem sectionDicts_displays (call : Caller κ) : ∀ (names : List SectionName) {w : World κ},
    Displays w.heap c scalar part →
    ∃ es h', sectionDicts call (.ref c.store) names w = .ok es { w with heap := h' } ∧
      Grows .plain w.heap h' ∧ List.Forall₂ (fun name p => p.1 = name.name ∧
        h'.Reads .plain w.heap.Vacant (part name) p.2) names es
  | [], w, hx => ⟨[], w.heap, rfl, .refl hx.sound, .nil⟩
  | name :: rest, w, hx => by
    obtain ⟨v, h₁, hplain, hg₁, hr⟩ :=
      plainOf_displays call hx.sound (hx.layout.map name) (hx.reads name)
    obtain ⟨es, h₂, hrest, hg₂, hes⟩ :=
      sectionDicts_displays call rest (w := { w with heap := h₁ }) (hx.grows hg₁)
    refine ⟨(name.name, v) :: es, h₂, ?_, hg₁.trans hg₂, .cons ⟨rfl, hr.extends hg₂.cells⟩ ?_⟩
    · simp only [sectionDicts, bind, EStateM.bind, sectionNamed_ok hx.layout, hplain, hrest]
      rfl
    · exact hes.imp fun _ _ hp => ⟨hp.1, hp.2.mono fun _ hv => hv.of_extends hg₁.cells⟩

theorem nodup_writtenEntries {locales : Value} {sections : Entries String Value}
    (hf : List.Forall₂ (fun (name : SectionName) p => p.1 = name.name) SectionName.all sections) :
    (Entries.keys (writtenEntries scalar locales sections)).Nodup := by
  have hkeys : SectionName.all.map SectionName.name = Entries.keys sections := by
    rw [Entries.keys, ← List.forall₂_eq_eq_eq, List.forall₂_map_left_iff, List.forall₂_map_right_iff]
    exact hf.imp fun _ _ heq => heq.symm
  have hnodup : (scalarNames ++ SectionName.all.map SectionName.name).Nodup := by decide
  rw [hkeys] at hnodup
  rw [writtenEntries, Entries.keys, List.map_append]
  exact hnodup

/-- A store is written down as its scalars and the trees of its sections, in cells of their own. -/
theorem toDict_displays (call : Caller κ) (hx : Displays w.heap c scalar part) :
    ∃ t h', toDict call (.ref c.store) w = .ok (.ref t) { w with heap := h' } ∧
      Grows .plain w.heap h' ∧ WrittenDown w.heap.Vacant scalar part t h' := by
  have hfine : ∀ name ∈ scalarNames, w.heap.Fine (scalar name) := fun name hn =>
    fine_scalar hx.sound hx.layout hn
  have hattr : ∀ name ∈ scalarNames, Object.getAttribute (.ref c.store) name w.heap =
      .ok (scalar name) w.heap := fun name hn =>
    getAttribute_scalar hx.layout hn (hfine name hn).1
  obtain ⟨locales, h₁, hcopy, hg₁, hlocales, htaken⟩ :=
    copyScalar_takes hx.sound (hfine "available_locales" (by decide))
  obtain ⟨sections, h₂, hsections, hg₂, hshown⟩ :=
    sectionDicts_displays call SectionName.all (w := { w with heap := h₁ }) (hx.grows hg₁)
  have hg := hg₁.trans hg₂
  -- the dictionary is made last, of scalars that are there and of what was written for the sections
  have hcell : h₂.FineCell (.dict (textKeys (writtenEntries scalar locales sections))) := by
    refine ⟨apart_textKeys (nodup_writtenEntries (hshown.imp fun _ _ hp => hp.1)), fun p hp => ?_⟩
    obtain ⟨q, hq, rfl⟩ := List.mem_map.mp hp
    rcases List.mem_append.mp hq with hq | hq
    · simp only [List.mem_cons, List.not_mem_nil, or_false] at hq
      rcases hq with rfl | rfl | rfl
      · exact (hfine _ (by decide)).extends hg.cells
      · exact (hfine _ (by decide)).extends hg.cells
      · exact hlocales.extends hg₂.cells
    · obtain ⟨name, -, hread⟩ := exists_of_forall₂ (List.Forall₂.flip hshown) q hq
      exact hread.2.fine
  have hg₃ : Grows .plain h₂ (h₂.push (.dict (textKeys (writtenEntries scalar locales sections)))) :=
    .push_plain hg₂.sound hcell fun _ heq => by cases heq
  have hnext := read_alloc_new h₂ (.dict (textKeys (writtenEntries scalar locales sections)))
  refine ⟨h₂.next, _, ?_, hg.trans hg₃, ⟨lt_size_of_read hnext, vacant_of_size_le hg.cells.size_le⟩,
    locales, sections, hnext, ?_, ?_⟩
  · simp only [toDict, bind, EStateM.bind, Action.onHeap, hattr "site_name" (by decide),
      hattr "default_locale" (by decide), hattr "available_locales" (by decide), hcopy, hsections]
    rfl
  · exact (htaken.twins fun r items hr => hg₁.cells.read_of_some hr).later fun r items hr =>
      (hg₂.trans hg₃).cells.read_of_some hr
  · refine hshown.imp fun name p hp => ⟨hp.1, ?_, ?_⟩
    · exact (hp.2.extends hg₃.cells).mono fun _ hv => hv.of_extends hg₁.cells
    · rw [size_push]
      exact Nat.lt_succ_of_le hp.2.height_le

namespace WrittenDown

variable {within wider : Ref → Prop} {d e : Ref}

theorem mono (hd : WrittenDown within scalar part d h) (hw : ∀ r, within r → wider r) :
    WrittenDown wider scalar part d h := by
  obtain ⟨⟨hlt, hown⟩, locales, sections, hread, hlocales, hsections⟩ := hd
  exact ⟨⟨hlt, hw d hown⟩, locales, sections, hread, hlocales,
    hsections.imp fun _ _ hp => ⟨hp.1, hp.2.1.mono hw, hp.2.2⟩⟩

/-- What was written down stays as it is while the heap grows. -/
theorem later (hd : WrittenDown within scalar part d h) (he : Extends h h') :
    WrittenDown within scalar part d h' := by
  obtain ⟨⟨hlt, hown⟩, locales, sections, hread, hlocales, hsections⟩ := hd
  exact ⟨⟨Nat.lt_of_lt_of_le hlt he.size_le, hown⟩, locales, sections, he.read_of_some hread,
    hlocales.later fun r items hr => he.read_of_some hr, hsections.imp fun _ _ hp =>
      ⟨hp.1, hp.2.1.extends he, Nat.lt_of_lt_of_le hp.2.2 he.size_le⟩⟩

/-- What was written down takes a new cell at least. -/
theorem size_lt {building : Building} (hd : WrittenDown h.Vacant scalar part d h')
    (hg : Grows building h h') : h.size < h'.size := by
  obtain ⟨⟨hlt, hvacant⟩, _, _, hread, -⟩ := hd
  refine Nat.lt_of_le_of_lt (Nat.le_of_not_lt fun hold => ?_) hlt
  rw [hg.cells.read_eq d hold] at hread
  exact not_vacant_of_read hread rfl hvacant

/-- What was written down stays as it is while only the store changes. -/
theorem confined (hd : WrittenDown (fun r => ¬ Own h c r) scalar part d h) (hc : Confined c h h') :
    WrittenDown (fun r => ¬ Own h' c r) scalar part d h' := by
  obtain ⟨⟨hlt, hown⟩, locales, sections, hread, hlocales, hsections⟩ := hd
  exact ⟨⟨Nat.lt_of_lt_of_le hlt hc.size_le, hc.own d hlt hown⟩, locales, sections,
    (hc.read_eq d hlt hown).trans hread, hlocales.later hc.lists,
    hsections.imp fun _ _ hp =>
      ⟨hp.1, hc.reads hp.2.1, Nat.lt_of_lt_of_le hp.2.2 hc.size_le⟩⟩

/-- What is written down for scalars that are equal to the same values, and for trees of the same
content, is equal. -/
theorem same {part' : SectionName → Tree String} {n : Nat} (hd : WrittenDown within scalar part d h)
    (he : WrittenDown wider scalar' part' e h) (hsize : h.size = n + 2)
    (hs : ∀ name ∈ scalarNames, SameTo (h.sameTo (n + 2) true) (scalar name) (scalar' name))
    (hparts : ∀ name, Tree.Twin (part name) (part' name)) : h.same (.ref d) (.ref e) = true := by
  obtain ⟨-, locales, sections, hread, hlocales, hsections⟩ := hd
  obtain ⟨-, locales', sections', hread', hlocales', hsections'⟩ := he
  -- comparing goes down one level for every cell; two levels are needed for a list of locales
  refine sameTo_of_contentAt (contentAt_of_read hread fun _ heq => by cases heq)
    (contentAt_of_read hread' fun _ heq => by cases heq) ?_
  rw [hsize] at hsections hsections' ⊢
  refine sameEntries_textKeys (nodup_writtenEntries (hsections'.imp fun _ _ hp => hp.1)) ?_
  -- the list is copied each time, so only its items can be compared
  have hlist := ((hlocales.sameTo_congr n).symm.trans (hs "available_locales" (by decide))).trans
    (hlocales'.sameTo_congr n)
  refine .cons ⟨rfl, (hs "site_name" (by decide)).same⟩
    (.cons ⟨rfl, (hs "default_locale" (by decide)).same⟩ (.cons ⟨rfl, hlist.same⟩ ?_))
  refine forall₂_of_forall₂ (fun name p q hp hq => ⟨hp.1.trans hq.1.symm, ?_⟩) hsections hsections'
  exact (sameTo_congr h _ _ _ hp.2.1 hq.2.1 (hparts name) hp.2.2 hq.2.2).same

end WrittenDown

/-! ### Loading again -/

theorem Layout.two_le_size (hc : Layout h c scalar) : 2 ≤ h.size := by
  have hstore := lt_size_of_read hc.store
  have hattributes := lt_size_of_read hc.attributes
  have hne : c.store.index ≠ c.attributes.index := fun heq => by
    have hread := hc.store
    rw [show c.store = c.attributes from congrArg Ref.mk heq, hc.attributes] at hread
    cases hread
  omega

/-- A dictionary that is no part of a store has the same for every section while the store changes. -/
theorem incoming_confined (hdata : h.read data = some (.dict es)) (hown : ¬ Own h c data)
    (hc : Confined c h h') (name : SectionName) :
    incoming h' data name = incoming h data name := by
  rw [incoming, incoming, entriesAt_dict hdata,
    entriesAt_dict ((hc.read_eq data (lt_size_of_read hdata) hown).trans hdata)]

/-- What can be given for a section can be given again after the store has changed. -/
theorem GivenApart.confined {u : Tree String} (hs : h.Sound) (hs' : h'.Sound) (hv : h.Fine v)
    (hc : Confined c h h') (hg : GivenApart h c v u) :
    GivenApart h' c v u ∧ h'.isMapping v = h.isMapping v := by
  -- whether it is a mapping or not, the value itself has no cell of the store
  have hown : ∀ r ∈ h.own v, ¬ Own h c r := by
    unfold GivenApart at hg
    split at hg
    · exact hg.own_within
    · exact hg
  have hlt := own_lt_of_fine hs hv
  have hmapping := (typeName_confined hs hs' hv hown hc).2
  refine ⟨?_, hmapping⟩
  unfold GivenApart at hg ⊢
  rw [hmapping]
  split at hg
  · rw [if_pos ‹_›]
    exact hc.reads hg
  · rw [if_neg ‹_›, own_agree (hc.agree fun r hr => ⟨hlt r hr, hown r hr⟩) fun _ hr => hr]
    exact fun r hr => hc.own r (hlt r hr) (hown r hr)

/-- Scalars that are taken over twice are the same the second time. -/
theorem TakesScalars.twins {names : List String} {scalar₁ scalar₂ : String → Value} {h₀ h₁ h₂ g : Heap}
    (h₁_taken : TakesScalars h₀ h₁ es names scalar scalar₁)
    (h₂_taken : TakesScalars h₂ g es names scalar₁ scalar₂)
    (hl₁ : ∀ r items, h₀.read r = some (.list items) → h₁.read r = some (.list items))
    (hl : ∀ r items, h₁.read r = some (.list items) → g.read r = some (.list items))
    (hl₂ : ∀ r items, h₂.read r = some (.list items) → g.read r = some (.list items)) (name : String) :
    Twins g (scalar₂ name) (scalar₁ name) := by
  by_cases hn : name ∈ names
  · cases hget : es.get? (Key.ofText name) with
    | none => exact .inl (h₂_taken.kept name (.inr hget))
    | some v =>
      -- both times the value of the dictionary is copied, so both copies are like it
      have hsecond := (h₂_taken.taken name hn v hget).twins hl₂
      have hfirst := ((h₁_taken.taken name hn v hget).twins hl₁).later hl
      exact hsecond.symm.trans hfirst
  · exact .inl (h₂_taken.kept name (.inl hn))

/-- If no key of a level has two maps, the sections are the same after a second time. -/
theorem mergedParts_again {u : SectionName → Tree String} {names : List SectionName}
    (hx : Holds h c scalar part) (hu : ∀ name, (u name).SingleMaps) :
    mergedParts Tree.overlay (mergedParts Tree.overlay part (offered h data u) names)
      (offered h data u) names = mergedParts Tree.overlay part (offered h data u) names := by
  funext name
  have hagain := Tree.overlay_overlay ((hx.reads name).distinct (by decide)) (hu name)
  by_cases hn : name ∈ names
  · by_cases hm : h.isMapping (incoming h data name) = true
    · simp [mergedParts, offered, hn, hm, hagain]
    · simp [mergedParts, offered, hm]
  · simp [mergedParts, hn]

/-- Loading a dictionary a second time makes no difference to what the store is written down as, if
no key of a level of what it has for the sections has two maps: keys with the same text count as one
key. -/
theorem load_load (call : Caller κ) {u : SectionName → Tree String} {s : Value}
    (hx : Holds w.heap c scalar part) (hown : ¬ Own w.heap c data)
    (hgiven : ∀ name, GivenApart w.heap c (incoming w.heap data name) (u name))
    (hu : ∀ name, (u name).SingleMaps) (hrun : load call (.ref c.store) (.ref data) w = .ok s w₁) :
    ∃ t₁ w₂ w₃ t₂ w₄, toDict call s w₁ = .ok t₁ w₂ ∧ load call s (.ref data) w₂ = .ok s w₃ ∧
      toDict call s w₃ = .ok t₂ w₄ ∧ w₄.heap.same t₂ t₁ = true := by
  obtain ⟨es, hdata⟩ : ∃ es, w.heap.read data = some (.dict es) := by
    by_contra hno
    rw [load_refuses fun r es heq hr => hno ⟨es, by cases heq; exact hr⟩] at hrun
    cases hrun
  -- it was loaded, so there is nothing unfit in it
  have hfit : firstUnfit w.heap data = none := by
    cases hbad : firstUnfit w.heap data with
    | none => rfl
    | some bad =>
      obtain ⟨_, _, _, -, hfail, -⟩ := load_unfit call hx hdata hgiven hbad
      rw [hfail] at hrun
      cases hrun
  -- the first time
  obtain ⟨h₁, hload₁, hl₁, -⟩ := load_fit call hx hdata hgiven hfit
  rw [hload₁] at hrun
  cases hrun
  obtain ⟨scalar₁, hx₁, htakes₁⟩ := hl₁.holds
  obtain ⟨t₁, h₂, hwrite₁, hg₁, hd₁⟩ := toDict_displays call (w := { w with heap := h₁ }) hx₁.displays
  obtain ⟨hx₂, hconf₂⟩ := hx₁.grows hg₁
  -- what is given is given as before
  have hconf := hl₁.confined.trans hconf₂
  have hincoming := incoming_confined hdata hown hconf
  have hkept : ∀ name, GivenApart h₂ c (incoming h₂ data name) (u name) ∧
      h₂.isMapping (incoming h₂ data name) = w.heap.isMapping (incoming w.heap data name) :=
    fun name => by
      rw [hincoming name]
      exact (hgiven name).confined hx.sound hx₂.sound (fine_incoming hx.sound data name) hconf
  have hdata₂ := (hconf.read_eq data (lt_size_of_read hdata) hown).trans hdata
  have hfit₂ : firstUnfit h₂ data = none := by
    rw [← hfit, firstUnfit, firstUnfit]
    congr 1
    funext name
    rw [(hkept name).2, hincoming name]
  have hoffered : offered h₂ data u = offered w.heap data u := by
    funext name
    rw [offered, offered, (hkept name).2]
  -- the second time
  obtain ⟨h₃, hload₂, hl₂, -⟩ := load_fit call (w := { w with heap := h₂ }) hx₂ hdata₂
    (fun name => (hkept name).1) hfit₂
  obtain ⟨scalar₂, hx₃, htakes₂⟩ := hl₂.holds
  rw [hoffered, mergedParts_again hx hu] at hx₃
  obtain ⟨t₂, h₄, hwrite₂, hg₂, hd₂⟩ := toDict_displays call (w := { w with heap := h₃ }) hx₃.displays
  obtain ⟨hx₄, hconf₄⟩ := hx₃.grows hg₂
  refine ⟨_, _, _, _, _, hwrite₁, hload₂, hwrite₂, ?_⟩
  -- neither dictionary has a cell of the store
  have hapart₁ := ((hd₁.mono fun _ hv => hx₁.not_own_of_vacant hg₁ hv).confined
    hl₂.confined).confined hconf₄
  have hapart₂ := hd₂.mono fun _ hv => hx₃.not_own_of_vacant hg₂ hv
  rw [entriesAt_dict hdata] at htakes₁
  rw [entriesAt_dict hdata₂] at htakes₂
  -- two levels are there to compare a list of locales
  obtain ⟨n, hn⟩ : ∃ n, _ = n + 2 := Nat.exists_eq_add_of_le' hx₄.layout.two_le_size
  refine hapart₂.same hapart₁ hn (fun name _ => ?_) fun name =>
    Tree.twin_refl ((hx₃.reads name).distinct (by decide))
  have htwins := htakes₁.twins htakes₂ hl₁.confined.lists
    (fun r items hr => hl₂.confined.lists r items (hconf₂.lists r items hr)) hl₂.confined.lists name
  exact (htwins.later hconf₄.lists).sameTo_congr n

/-- Settings with a map of images. -/
def imageSettings : Entries String (Tree String) :=
  [("site_name", text "Shop"), ("images", .map [("sizes", .map [("small", number 200)])])]

theorem load_load_images : ∃ data h c g scalar w₁,
    buildText .plain (.map imageSettings) .empty = .ok (.ref data) h ∧
    Store.create h = .ok (.ref c.store) g ∧ Holds g c scalar defaultSection ∧
    load (fun v _ => pure v) (.ref c.store) (.ref data) (newWorld g) = .ok (.ref c.store) w₁ ∧
    ∃ t₁ w₂ w₃ t₂ w₄, toDict (fun v _ => pure v) (.ref c.store) w₁ = .ok t₁ w₂ ∧
      load (fun v _ => pure v) (.ref c.store) (.ref data) w₂ = .ok (.ref c.store) w₃ ∧
      toDict (fun v _ => pure v) (.ref c.store) w₃ = .ok t₂ w₄ ∧ w₄.heap.same t₂ t₁ = true := by
  obtain ⟨data, h, hbuild, hs, hd⟩ := @build_settings imageSettings rfl (by decide)
  obtain ⟨c, g, scalar, hcreate, hx, hread⟩ := create_beside hs hd
  obtain ⟨_, es, heq, hdata⟩ := dict_of_reads hread
  cases heq
  have hfit : firstUnfit (newWorld g).heap data = none := by
    rw [newWorld, firstUnfit_eq hx.sound hread]; rfl
  have hgiven := offer_givenApart hread
  obtain ⟨h₁, hload, -⟩ := load_fit (fun v _ => pure v) (w := newWorld g) hx hdata hgiven hfit
  refine ⟨data, h, c, g, scalar, _, hbuild, hcreate, hx, hload, ?_⟩
  exact load_load (fun v _ => pure v) (w := newWorld g) hx
    (hread.own_within data (own_ref_mem data)) hgiven
    (fun name => Tree.singleMaps_of_distinct (distinct_offer (hread.distinct (by decide)) name)) hload

end PageMeta.Settings
