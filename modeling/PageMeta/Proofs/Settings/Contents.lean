import PageMeta.Proofs.Settings.Store

/-!
# What a store holds

A store holds plain data: its scalars are plain data, and the maps of its sections show plain data.
Its attributes are no part of them, so scalars can be assigned without any change of what values
show.

## Key results

- `Stands`: what a store holds
- `Stands.assign`: assigning a scalar changes the scalar only
-/

namespace PageMeta.Settings

open Heap

theorem mem_all (name : SectionName) : name ∈ SectionName.all := by cases name <;> decide

/-- The contents of a store, as trees. -/
structure Contents where
  scalar : String → Tree String
  part : SectionName → Tree String

namespace Contents

/-- The contents of a store by name. -/
def entries (x : Contents) : Entries String (Tree String) :=
  scalarNames.map (fun name => (name, x.scalar name)) ++
    SectionName.all.map fun name => (name.name, x.part name)

/-- The contents of a store as one tree. -/
def tree (x : Contents) : Tree String := .map x.entries

theorem nodup_entries (x : Contents) : (Entries.keys x.entries).Nodup := by
  have hnames : (scalarNames ++ SectionName.all.map SectionName.name).Nodup := by decide
  exact hnames

theorem get?_scalar (x : Contents) {name : String} (hn : name ∈ scalarNames) :
    x.entries.get? name = some (x.scalar name) :=
  Entries.get?_of_mem x.nodup_entries (List.mem_append_left _ (List.mem_map_of_mem hn))

theorem get?_part (x : Contents) (name : SectionName) :
    x.entries.get? name.name = some (x.part name) := by
  refine Entries.get?_of_mem x.nodup_entries (List.mem_append_right _ ?_)
  exact List.mem_map.mpr ⟨name, mem_all name, rfl⟩

end Contents

/-- Whether a store holds plain data. -/
structure Stands (h : Heap) (c : Cells) (x : Contents) : Prop where
  sound : h.Sound
  scalars : ∃ scalar, Layout h c scalar ∧
    ∀ name ∈ scalarNames, IsData h (x.scalar name) (scalar name)
  parts : ∀ name, IsContent h (x.part name) (.ref (c.map name))

/-- A later heap in which nothing but new cells and one cell that belongs to no map is different. -/
structure Spares (d : Ref) (h h' : Heap) : Prop where
  sound : h'.Sound
  cells : Agree (fun r => r ≠ d ∧ r.index < h.size) h h'
  maps : ∀ m data, h'.read m = some (.map (.ref data)) → h.read m = some (.map (.ref data))

variable {h h' : Heap} {c : Cells} {scalar : String → Value} {x : Contents} {v : Value}
  {t : Tree String} {within : Ref → Prop} {d : Ref}

namespace Spares

theorem refl (hs : h.Sound) : Spares d h h := ⟨hs, Agree.refl _ _, fun _ _ hm => hm⟩

theorem trans {h'' : Heap} (h₁ : Spares d h h') (h₂ : Spares d h' h'') : Spares d h h'' where
  sound := h₂.sound
  cells := h₁.cells.trans <|
    h₂.cells.mono fun _ hr => ⟨hr.1, Nat.lt_of_lt_of_le hr.2 h₁.cells.size_le⟩
  maps m data hm := h₁.maps m data (h₂.maps m data hm)

theorem of_grows (hg : Grows .plain h h') : Spares d h h' where
  sound := hg.sound
  cells := hg.cells.agree fun _ hr => hr.2
  maps m data hm := (hg.maps m data hm).resolve_right fun hn => by cases hn.1

theorem free (hs : Spares d h h') {r : Ref} (hf : h.Free r) : h'.Free r :=
  fun m hm => hf m (hs.maps m r hm)

end Spares

/-! ### The attributes are no part of plain data -/

/-- The attributes are no plain data: there are maps in them. -/
theorem Layout.not_isData (hc : Layout h c scalar) (hd : IsData h t (.ref c.attributes)) :
    False := by
  have hattr : (Key.ofText "_sections", Value.ref c.sections) ∈ h.entriesAt c.attributes := by
    rw [entriesAt_dict hc.attributes]
    simp [attributeEntries, textKeys]
  obtain ⟨u, hu⟩ := hd.of_entriesAt _ hattr
  have hmap : (Key.ofText SectionName.i18n.name, Value.ref (c.map .i18n)) ∈
      h.entriesAt c.sections := by
    rw [entriesAt_dict hc.sections]
    exact List.mem_map_of_mem (by decide)
  -- a section stands two steps below the attributes, and it is a map
  obtain ⟨s, hs⟩ := hu.of_entriesAt _ hmap
  have hfalse := hs.not_isMap
  rw [hc.map .i18n] at hfalse
  cases hfalse

theorem Layout.not_own_data (hc : Layout h c scalar) (hd : IsData h t v) :
    ∀ r ∈ h.own v, r ≠ c.attributes := by
  rintro r hown rfl
  rcases mem_own_iff.mp hown with rfl | ⟨m, rfl, hm⟩
  · exact hc.not_isData hd
  · have hfalse := hd.not_isMap
    rw [isMap_of_read hm] at hfalse
    cases hfalse

theorem Layout.not_own_content (hc : Layout h c scalar) (hd : IsContent h t v) :
    ∀ r ∈ h.own v, r ≠ c.attributes := by
  rintro r hown rfl
  rcases mem_own_iff.mp hown with rfl | ⟨m, rfl, hm⟩
  · -- a map can hold no dictionary
    have hdict := hd.reads.storable c.attributes _ .self hc.attributes
    cases hdict
  · exact hc.free _ (.inr (.inl rfl)) m hm

/-- Plain data stay as they are while scalars are assigned. -/
theorem Layout.data_spares {P : Ref → Prop} (hc : Layout h c scalar)
    (hs : Spares c.attributes h h') (hr : h.Reads .plain (fun r => h.Free r ∧ P r) t v)
    (hp : t.isPlain = true) : h'.Reads .plain (fun r => h'.Free r ∧ P r) t v := by
  -- no part of plain data is the dictionary of the attributes, and the rest stays
  have hnot := hr.allocated.and (by decide) (Q := (· ≠ c.attributes)) (fun u w hu hpu =>
    hc.not_own_data ⟨hu.mono fun _ hr => hr.1.1, hpu⟩) hp
  refine (hnot.agree (hs.cells.mono fun r hr => ⟨hr.2, hr.1.2⟩)).mono ?_
  exact fun r hr => ⟨hs.free hr.1.1.1, hr.1.1.2⟩

theorem Layout.isData_spares (hc : Layout h c scalar) (hs : Spares c.attributes h h')
    (hd : IsData h t v) : IsData h' t v :=
  ⟨(hc.data_spares hs (hd.reads.mono fun _ hr => ⟨hr, trivial⟩) hd.plain).mono fun _ hr => hr.1,
    hd.plain⟩

/-- The cells of what maps show stay as they are while scalars are assigned. -/
theorem Layout.agree_spares (hc : Layout h c scalar) (hs : Spares c.attributes h h')
    (hr : h.Reads .stored within t v) (hp : t.isPlain = true) :
    Agree (h.Opens .stored v) h h' := by
  have hnot := hr.and (by decide) (Q := (· ≠ c.attributes)) (fun u w hu hpu =>
    hc.not_own_content ⟨hu.mono fun _ _ => trivial, hpu⟩) hp
  exact hs.cells.mono fun r ho => ⟨(hnot.within_of_opens ho).2, hr.opens_lt ho⟩

theorem Layout.isContent_spares (hc : Layout h c scalar) (hs : Spares c.attributes h h')
    (hd : IsContent h t v) : IsContent h' t v :=
  ⟨((hd.reads.opened (by decide)).agree (hc.agree_spares hs hd.reads hd.plain)).mono
    fun _ _ => trivial, hd.plain⟩

theorem Stands.lasts (hx : Stands h c x) (hl : Lasts h h') :
    ∃ y, Stands h' c y ∧ y.scalar = x.scalar := by
  obtain ⟨scalar, hc, hd⟩ := hx.scalars
  choose part hpart using fun name => hl.content _ _ (hx.parts name)
  exact ⟨⟨x.scalar, part⟩, ⟨hl.sound, ⟨scalar, hc.lasts hl, fun name hn => (hd name hn).lasts hl⟩,
    hpart⟩, rfl⟩

theorem Stands.grows {building : Building} (hx : Stands h c x) (hg : Grows building h h') :
    Stands h' c x := by
  obtain ⟨scalar, hc, hd⟩ := hx.scalars
  refine ⟨hg.sound, ⟨scalar, hc.lasts hg.lasts, fun name hn => (hd name hn).lasts hg.lasts⟩,
    fun name => ?_⟩
  exact ⟨(hx.parts name).reads.extends hg.cells, (hx.parts name).plain⟩

/-- The sections of a store are maps. -/
theorem Stands.part_eq_map (hx : Stands h c x) (name : SectionName) :
    ∃ us, x.part name = .map us := by
  obtain ⟨scalar, hc, -⟩ := hx.scalars
  have hr := (hx.parts name).reads
  obtain ⟨entries, he⟩ := Option.isSome_iff_exists.mp (hr.isMap_stored.mp (hc.map name))
  obtain ⟨us, hus, -⟩ := hr.map_of_entries? he
  exact ⟨us, hus⟩

/-! ### Assigning scalars -/

theorem textKeys_attributes : (attributeEntries scalar c.sections).TextKeys := textKeys_texts _

/-- Writing a scalar spares everything else. -/
theorem write_spares {name : String} (hs : h.Sound) (hc : Layout h c scalar)
    (hn : name ∈ scalarNames) (hv : h.Fine v) : Spares c.attributes h (h.write c.attributes
      (.dict (attributeEntries (Function.update scalar name v) c.sections))) := by
  have hfree := hc.free c.attributes (.inr (.inl rfl))
  rw [← put_attributes hn]
  have hcell : h.FineCell (.dict ((attributeEntries scalar c.sections).put (Key.ofText name) v)) :=
    fineCell_put textKeys_attributes (hs.cells _ _ hc.attributes) rfl hv
  refine ⟨hs.write hc.attributes hcell fun m hm => absurd hm (hfree m),
    ⟨by rw [size_write], fun r hr => read_write_of_ne _ _ _ _ hr.1.symm⟩,
    fun _ _ => read_map_of_write⟩

theorem Layout.write_scalar {name : String} (hc : Layout h c scalar)
    (hs : Spares c.attributes h (h.write c.attributes
      (.dict (attributeEntries (Function.update scalar name v) c.sections)))) :
    Layout (h.write c.attributes
      (.dict (attributeEntries (Function.update scalar name v) c.sections))) c
      (Function.update scalar name v) where
  store := by
    refine (read_write_of_ne _ _ _ _ fun heq => ?_).trans hc.store
    have hread := hc.store
    rw [← heq, hc.attributes] at hread
    cases hread
  attributes := read_write_self _ _ _ (lt_size_of_read hc.attributes)
  sections := by
    refine (read_write_of_ne _ _ _ _ fun heq => ?_).trans hc.sections
    -- there are fewer attributes than sections
    have hread := hc.sections
    rw [← heq, hc.attributes] at hread
    have hlen := congrArg List.length (Cell.dict.inj (Option.some.inj hread))
    cases hlen
  map part := by
    obtain ⟨data, hr⟩ := read_of_isMap (hc.map part)
    refine isMap_of_read ((read_write_of_ne _ _ _ _ fun heq => ?_).trans hr)
    rw [← heq, hc.attributes] at hr
    cases hr
  free r hr := hs.free (hc.free r hr)

/-- Assigning a scalar changes the scalar only. -/
theorem Stands.assign {name : String} (hx : Stands h c x) (hn : name ∈ scalarNames)
    (hd : IsData h t v) : ∃ h', Object.setAttribute (.ref c.store) name v h = .ok () h' ∧
      Stands h' c { x with scalar := Function.update x.scalar name t } ∧
      Spares c.attributes h h' := by
  obtain ⟨scalar, hc, hscalar⟩ := hx.scalars
  have hs := write_spares hx.sound hc hn hd.reads.fine
  refine ⟨_, setAttribute_scalar hc hn, ⟨hs.sound, ⟨_, hc.write_scalar hs, fun other ho => ?_⟩,
    fun part => hc.isContent_spares hs (hx.parts part)⟩, hs⟩
  by_cases heq : other = name
  · subst heq
    simpa using hc.isData_spares hs hd
  · simpa [heq] using hc.isData_spares hs (hscalar other ho)

end PageMeta.Settings
