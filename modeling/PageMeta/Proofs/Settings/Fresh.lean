import PageMeta.Proofs.Settings.Contents

/-!
# New stores

A new store holds the default settings.  The maps of its sections are trees of new cells, and no
two of them have a cell in common.

## Key results

- `makeSections_fresh`: the maps of the sections are made of new cells
- `create_stands`: a new store holds the default settings
-/

namespace PageMeta.Settings

open Heap

/-- The default settings as contents. -/
def defaultContents : Contents where
  scalar
    | "site_name" => .leaf defaultSiteName
    | "default_locale" => .leaf defaultLocale
    | _ => defaultLocales
  part := defaultSection

example : defaultContents.tree = defaults := rfl

theorem distinct_defaultSection (name : SectionName) : (defaultSection name).Distinct := by
  cases name <;> decide

theorem isPlain_defaultSection (name : SectionName) : (defaultSection name).isPlain = true := by
  cases name <;> rfl

/-- Every section is a map by default. -/
theorem defaultSection_eq_map (name : SectionName) : ∃ ts, defaultSection name = .map ts := by
  cases name <;> exact ⟨_, rfl⟩

/-- Whether the maps of some sections show the defaults, are made of cells that are vacant in an
earlier heap, and are separate trees. -/
structure Fresh (h g : Heap) (names : List SectionName) (map : SectionName → Ref) : Prop where
  reads : ∀ name ∈ names,
    g.Reads .stored h.Vacant (defaultSection name) (.ref (map name))
  tree : ∀ name ∈ names, IsTree g (.ref (map name))
  separate : ∀ name ∈ names, ∀ other ∈ names, name ≠ other →
    Separate g (.ref (map name)) (.ref (map other))

variable {h g g' : Heap} {names : List SectionName} {map : SectionName → Ref}

/-- New maps stay as they are as long as their cells stay. -/
theorem Fresh.agree (hf : Fresh h g names map)
    (ha : ∀ name ∈ names, Agree (g.Opens .stored (.ref (map name))) g g') :
    Fresh h g' names map where
  reads name hn :=
    (((hf.reads name hn).opened (by decide)).agree (ha name hn)).mono fun _ ho =>
      (hf.reads name hn).within_of_opens ho
  tree name hn := (hf.tree name hn).agree ((hf.reads name hn).opened (by decide)) (ha name hn)
  separate name hn other ho hne :=
    (hf.separate name hn other ho hne).agree ((hf.reads name hn).opened (by decide))
      ((hf.reads other ho).opened (by decide)) (ha name hn) (ha other ho)

theorem Fresh.extends (hf : Fresh h g names map) (he : Extends g g') : Fresh h g' names map :=
  hf.agree fun name hn => he.agree fun _ ho => (hf.reads name hn).opens_lt ho

theorem Fresh.of_extends {h₁ : Heap} (hf : Fresh h₁ g names map) (he : Extends h h₁) :
    Fresh h g names map :=
  ⟨fun name hn => (hf.reads name hn).mono fun _ hv => hv.of_extends he, hf.tree, hf.separate⟩

theorem Fresh.isMap (hf : Fresh h g names map) {name : SectionName} (hn : name ∈ names) :
    g.isMap (.ref (map name)) = true := by
  obtain ⟨ts, hts⟩ := defaultSection_eq_map name
  have hr := hf.reads name hn
  rw [hts] at hr
  refine hr.isMap_stored.mpr ?_
  obtain ⟨entries, he, -⟩ := hr
  rw [he]
  rfl

/-- A map of new cells for a section. -/
theorem buildSection_fresh (hs : h.Sound) (name : SectionName) :
    ∃ r g, buildText .wrapped (defaultSection name) h = .ok (.ref r) g ∧ Grows .wrapped h g ∧
      g.Reads .stored h.Vacant (defaultSection name) (.ref r) ∧ IsTree g (.ref r) := by
  have hd := distinct_defaultSection name
  have hnamed : ((defaultSection name).mapKeys Key.ofText).Named h.IsLeaf (defaultSection name) :=
    Tree.named_mapKeys (fun _ => isLeaf_of_isPlain) (isPlain_defaultSection name)
  obtain ⟨w, g, hw, -, hr⟩ := build_reads .wrapped hnamed hd
  obtain ⟨ts, hts⟩ := defaultSection_eq_map name
  obtain ⟨r, rfl⟩ : ∃ r, w = .ref r := by
    rw [hts] at hr
    obtain ⟨entries, he, -⟩ := hr
    obtain ⟨r, hr, -⟩ := ref_of_entries? he
    exact ⟨r, hr⟩
  exact ⟨r, g, hw, build_grows .wrapped hs hnamed hd hw, hr, build_isTree hnamed hd hw⟩

/-- The maps of sections are made of new cells. -/
theorem makeSections_fresh : ∀ (names : List SectionName) {h : Heap}, names.Nodup → h.Sound →
    ∃ map g, Store.makeSections names h =
        .ok (names.map fun name => (Key.ofText name.name, .ref (map name))) g ∧
      Grows .wrapped h g ∧ Fresh h g names map
  | [], h, _, hs => by
    refine ⟨fun _ => ⟨0⟩, h, rfl, .refl hs, ⟨?_, ?_, ?_⟩⟩ <;>
      exact fun _ hn => absurd hn List.not_mem_nil
  | name :: rest, h, hn, hs => by
    obtain ⟨hnew, hrest⟩ := List.nodup_cons.mp hn
    obtain ⟨r, h₁, hr, hg₁, hread, htree⟩ := buildSection_fresh hs name
    obtain ⟨map, h₂, hmap, hg₂, hf⟩ := makeSections_fresh rest hrest hg₁.sound
    have hself : Function.update map name r name = r := Function.update_self ..
    have hother : ∀ n ∈ rest, Function.update map name r n = map n := fun n hn =>
      Function.update_of_ne (fun heq : n = name => hnew (heq ▸ hn)) ..
    refine ⟨Function.update map name r, h₂, ?_, hg₁.trans hg₂, ⟨?_, ?_, ?_⟩⟩
    · have hmap' : (rest.map fun n => (Key.ofText n.name, Value.ref (Function.update map name r n))) =
          rest.map fun n => (Key.ofText n.name, Value.ref (map n)) :=
        List.map_congr_left fun n hn => by rw [hother n hn]
      rw [List.map_cons, hself, hmap']
      simp only [Store.makeSections, bind, EStateM.bind, hr, hmap]
      rfl
    · refine List.forall_mem_cons.mpr ⟨?_, fun n hn => ?_⟩
      · rw [hself]; exact hread.extends hg₂.cells
      · rw [hother n hn]; exact (hf.reads n hn).mono fun _ hv => hv.of_extends hg₁.cells
    · refine List.forall_mem_cons.mpr ⟨?_, fun n hn => ?_⟩
      · rw [hself]; exact htree.extends hread hg₂.cells
      · rw [hother n hn]; exact hf.tree n hn
    · -- what was made before is separate from what is made of vacant cells
      have hsep : ∀ n ∈ rest, Separate h₂ (.ref r) (.ref (map n)) := fun n hn =>
        separate_of_vacant hread hg₂.cells (hf.reads n hn)
      refine List.forall_mem_cons.mpr ⟨List.forall_mem_cons.mpr ⟨fun hne => absurd rfl hne,
        fun n hn _ => ?_⟩, fun n hn => List.forall_mem_cons.mpr ⟨fun _ => ?_, fun m hm hne => ?_⟩⟩
      · rw [hself, hother n hn]; exact hsep n hn
      · rw [hself, hother n hn]; exact (hsep n hn).symm
      · rw [hother n hn, hother m hm]; exact hf.separate n hn m hm hne

/-- Texts as keys are apart if the texts are different. -/
theorem apart_textKeys {entries : Entries String Value} (hn : (Entries.keys entries).Nodup) :
    (textKeys entries).Apart := (match_textKeys entries).apart_iff.mpr hn

/-- The sections are entries of a dictionary. -/
theorem fine_sections (hm : ∀ name, h.isMap (.ref (map name)) = true) :
    h.FineCell (.dict (sectionEntries map)) := by
  have hnames : (Entries.keys (SectionName.all.map fun name =>
      (name.name, Value.ref (map name)))).Nodup := by
    have hnodup : (SectionName.all.map SectionName.name).Nodup := by decide
    exact hnodup
  refine ⟨apart_textKeys hnames, fun p hp => ?_⟩
  obtain ⟨name, -, rfl⟩ := List.mem_map.mp hp
  exact fine_of_isMap (hm name)

/-- The attributes are entries of a dictionary. -/
theorem fine_attributes {scalar : String → Value} {sections : Ref}
    (hv : ∀ name ∈ scalarNames, h.Fine (scalar name)) (hs : sections.index < h.size) :
    h.FineCell (.dict (attributeEntries scalar sections)) := by
  have hnames : (Entries.keys (scalarNames.map (fun name => (name, scalar name)) ++
      [("_sections", Value.ref sections)])).Nodup := by
    have hnodup : (scalarNames ++ ["_sections"]).Nodup := by decide
    exact hnodup
  refine ⟨apart_textKeys hnames, fun p hp => ?_⟩
  obtain ⟨q, hq, rfl⟩ := List.mem_map.mp hp
  rcases List.mem_append.mp hq with hq | hq
  · obtain ⟨name, hn, rfl⟩ := List.mem_map.mp hq
    exact hv name hn
  · cases List.mem_singleton.mp hq
    exact ⟨rfl, fun r heq => by cases heq; exact hs⟩

/-- A new store over maps and scalars that are there. -/
theorem layout_push {scalar : String → Value} (hs : h.Sound)
    (hm : ∀ name, h.isMap (.ref (map name)) = true)
    (hv : ∀ name ∈ scalarNames, h.Fine (scalar name)) {h₁ h₂ : Heap}
    (h₁_eq : h₁ = h.push (.dict (sectionEntries map)))
    (h₂_eq : h₂ = h₁.push (.dict (attributeEntries scalar h.next))) :
    Grows .plain h (h₂.push (.store h₁.next)) ∧
      Layout (h₂.push (.store h₁.next)) ⟨h₂.next, h₁.next, h.next, map⟩ scalar := by
  have hread₁ : h₁.read h.next = some (.dict (sectionEntries map)) := by
    rw [h₁_eq]; exact read_alloc_new _ _
  have hg₁ : Grows .plain h h₁ := by
    rw [h₁_eq]; exact .push_plain hs (fine_sections hm) fun _ heq => by cases heq
  have hread₂ : h₂.read h₁.next = some (.dict (attributeEntries scalar h.next)) := by
    rw [h₂_eq]; exact read_alloc_new _ _
  have hg₂ : Grows .plain h₁ h₂ := by
    have hfine : h₁.FineCell (.dict (attributeEntries scalar h.next)) := fine_attributes
      (fun name hn => (hv name hn).extends hg₁.cells) (lt_size_of_read hread₁)
    rw [h₂_eq]; exact .push_plain hg₁.sound hfine fun _ heq => by cases heq
  have hg₃ : Grows .plain h₂ (h₂.push (.store h₁.next)) :=
    .push_plain hg₂.sound trivial fun _ heq => by cases heq
  have hg := (hg₁.trans hg₂).trans hg₃
  refine ⟨hg, ⟨read_alloc_new _ _, hg₃.cells.read_of_some hread₂,
    (hg₂.cells.trans hg₃.cells).read_of_some hread₁, fun name => hg.keeps.maps _ (hm name), ?_⟩⟩
  -- the cells of the new store are in no map, because nothing was there before
  refine fun r hr => hg.free_of_vacant hs (vacant_of_size_le ?_)
  rcases hr with rfl | rfl | rfl
  · exact Nat.le_trans hg₁.cells.size_le hg₂.cells.size_le
  · exact hg₁.cells.size_le
  · exact Nat.le_refl _

/-- The scalars of a new store, given the list of its locales. -/
def defaultScalar (locales : Value) : String → Value
  | "site_name" => defaultSiteName
  | "default_locale" => defaultLocale
  | _ => locales

/-- A new store holds the default settings, in cells of its own. -/
theorem create_stands (hs : h.Sound) :
    ∃ c g, Store.create h = .ok (.ref c.store) g ∧ Grows .wrapped h g ∧
      Stands g c defaultContents ∧ Fresh h g SectionName.all c.map := by
  have hplain : defaultLocales.isPlain = true := rfl
  obtain ⟨locales, h₁, hlocales, hg₁, hd⟩ := build_data hs
    (Tree.named_mapKeys (fun _ => isLeaf_of_isPlain) hplain) (by decide) hplain
  obtain ⟨map, h₂, hmap, hg₂, hf⟩ := makeSections_fresh SectionName.all (by decide) hg₁.sound
  have hscalar : ∀ name ∈ scalarNames,
      IsData h₂ (defaultContents.scalar name) (defaultScalar locales name) := by
    intro name hn
    simp only [scalarNames, List.mem_cons, List.not_mem_nil, or_false] at hn
    rcases hn with rfl | rfl | rfl
    · exact .of_isPlain rfl
    · exact .of_isPlain rfl
    · exact hd.lasts hg₂.lasts
  obtain ⟨hg₃, hc⟩ := layout_push hg₂.sound (fun name => hf.isMap (mem_all name))
    (fun name hn => (hscalar name hn).reads.fine) rfl rfl
  have hf' := (hf.extends hg₃.cells).of_extends hg₁.cells
  refine ⟨_, _, ?_, (hg₁.wrapped.trans hg₂).trans hg₃.wrapped, ⟨hg₃.sound, ⟨_, hc, fun name hn =>
    (hscalar name hn).lasts hg₃.lasts⟩, fun name => ?_⟩, hf'⟩
  · have hlocales' : buildText .plain defaultLocales h = .ok locales h₁ := hlocales
    simp only [Store.create, Store.makeAttributes, bind, EStateM.bind, hlocales', hmap]
    rfl
  · exact ⟨(hf'.reads name (mem_all name)).mono fun _ _ => trivial, isPlain_defaultSection name⟩

end PageMeta.Settings
