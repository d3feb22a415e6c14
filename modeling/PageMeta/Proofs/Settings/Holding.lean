import PageMeta.Proofs.AttributeMap.Overlay
import PageMeta.Proofs.Settings.Loading

/-!
# Stores of separate sections

A store can hold any values.  What loading does to it can be said exactly if the maps of its
sections are trees, and no two of them have a cell in common: then a change of one section is a
change of no other, and of nothing else.

## Key results

- `Holds`: a store whose sections are separate trees
- `Holds.merge`: merging a mapping into one section
- `Confined`: what is no part of a store stays as it is
-/

namespace PageMeta.Settings

open Heap
open AttributeMap (Part Shows Overlaid)

/-- Whether the sections of a store show some trees, are trees themselves, and have no cell in
common. -/
structure Holds (h : Heap) (c : Cells) (scalar : String → Value)
    (part : SectionName → Tree String) : Prop where
  sound : h.Sound
  layout : Layout h c scalar
  reads : ∀ name, Shows h .stored (part name) (.ref (c.map name))
  tree : ∀ name, IsTree h (.ref (c.map name))
  separate : ∀ name other, name ≠ other →
    Separate h (.ref (c.map name)) (.ref (c.map other))

/-- Whether a cell is changed when a store is loaded: the attributes, or part of a section. -/
def Own (h : Heap) (c : Cells) (r : Ref) : Prop :=
  r = c.attributes ∨ ∃ name, Part h (c.map name) r

variable {h h' h'' : Heap} {c : Cells} {scalar scalar' : String → Value}
  {part : SectionName → Tree String} {t u : Tree String} {v : Value} {within : Ref → Prop}

/-- A dictionary in which no map keeps its entries is no part of a map. -/
theorem not_opens_of_free {m r : Ref} {es : Entries Key Value} (hs : h.Sound)
    (hm : h.isMap (.ref m) = true) (hr : h.read r = some (.dict es)) (hf : h.Free r) :
    ¬ h.Opens .stored (.ref m) r := by
  rintro ⟨way, w, hat, hown⟩
  rcases mem_own_iff.mp hown with rfl | ⟨m', rfl, hm'⟩
  · -- a map can hold no dictionary
    have hdict := ((hs.storable_of_isMap hm).of_within (within_of_at? hat)) _ _ .self hr
    cases hdict
  · exact hf m' hm'

/-- The dictionaries of a store are no part of its sections. -/
theorem Layout.not_opens (hc : Layout h c scalar) (hs : h.Sound) (name : SectionName) {r : Ref}
    (hr : r = c.attributes ∨ r = c.sections) : ¬ h.Opens .stored (.ref (c.map name)) r := by
  have hfree := hc.free r (.inr hr)
  rcases hr with rfl | rfl
  · exact not_opens_of_free hs (hc.map name) hc.attributes hfree
  · exact not_opens_of_free hs (hc.map name) hc.sections hfree

/-- What belongs to a store is a container that is there. -/
theorem Layout.not_vacant (hc : Layout h c scalar) {r : Ref} (hr : Own h c r) : ¬ h.Vacant r := by
  rcases hr with rfl | ⟨name, -, cell, hcell, hcontainer⟩
  · exact not_vacant_of_read hc.attributes rfl
  · exact not_vacant_of_read hcell hcontainer

/-! ### Changes of a store only -/

/-- A later heap in which nothing but a store has changed, what did not belong to the store does not
belong to it now, and no list was changed, nor any cell that belongs to no map. -/
structure Confined (c : Cells) (h h' : Heap) : Prop where
  size_le : h.size ≤ h'.size
  read_eq : ∀ r, r.index < h.size → ¬ Own h c r → h'.read r = h.read r
  own : ∀ r, r.index < h.size → ¬ Own h c r → ¬ Own h' c r
  lists : ∀ r items, h.read r = some (.list items) → h'.read r = some (.list items)
  free : ∀ r, r.index < h.size → r ≠ c.attributes → h.Free r →
    h'.read r = h.read r ∧ h'.Free r

namespace Confined

theorem refl (c : Cells) (h : Heap) : Confined c h h :=
  ⟨Nat.le_refl _, fun _ _ _ => rfl, fun _ _ hn => hn, fun _ _ hr => hr, fun _ _ _ hf => ⟨rfl, hf⟩⟩

theorem trans (h₁ : Confined c h h') (h₂ : Confined c h' h'') : Confined c h h'' where
  size_le := Nat.le_trans h₁.size_le h₂.size_le
  read_eq r hr hn :=
    (h₂.read_eq r (Nat.lt_of_lt_of_le hr h₁.size_le) (h₁.own r hr hn)).trans (h₁.read_eq r hr hn)
  own r hr hn := h₂.own r (Nat.lt_of_lt_of_le hr h₁.size_le) (h₁.own r hr hn)
  lists r items hr := h₂.lists r items (h₁.lists r items hr)
  free r hr hne hf := by
    obtain ⟨hread, hf'⟩ := h₁.free r hr hne hf
    obtain ⟨hread', hf''⟩ := h₂.free r (Nat.lt_of_lt_of_le hr h₁.size_le) hne hf'
    exact ⟨hread'.trans hread, hf''⟩

/-- What a store gets are new cells: of what was there and has not changed, nothing. -/
theorem of_opens (hsize : h.size ≤ h'.size)
    (hread : ∀ r, r.index < h.size → ¬ Own h c r → h'.read r = h.read r)
    (hopens : ∀ name r, h'.Opens .stored (.ref (c.map name)) r →
      h.Opens .stored (.ref (c.map name)) r ∨ h.Vacant r)
    (hlists : ∀ r items, h.read r = some (.list items) → h'.read r = some (.list items))
    (hfree : ∀ r, r.index < h.size → r ≠ c.attributes → h.Free r →
      h'.read r = h.read r ∧ h'.Free r) : Confined c h h' := by
  refine ⟨hsize, hread, fun r hr hn hown => ?_, hlists, hfree⟩
  rcases hown with rfl | ⟨name, ho, cell, hcell, hcontainer⟩
  · exact hn (.inl rfl)
  · rw [hread r hr hn] at hcell
    rcases hopens name r ho with ho | hv
    · exact hn (.inr ⟨name, ho, cell, hcell, hcontainer⟩)
    · exact not_vacant_of_read hcell hcontainer hv

theorem agree (hc : Confined c h h') (hw : ∀ r, within r → r.index < h.size ∧ ¬ Own h c r) :
    Agree within h h' := ⟨hc.size_le, fun r hr => hc.read_eq r (hw r hr).1 (hw r hr).2⟩

/-- What shows a tree and has no cell of the store stays as it is. -/
theorem reads {view : View} (hc : Confined c h h')
    (hr : h.Reads view (fun r => ¬ Own h c r) t v) : h'.Reads view (fun r => ¬ Own h' c r) t v :=
  (hr.allocated.agree (hc.agree fun _ hw => ⟨hw.2, hw.1⟩)).mono fun r hw => hc.own r hw.2 hw.1

/-- Plain data stay as they are. -/
theorem isData (hc : Confined c h h') (hl : Layout h c scalar) (hd : IsData h t v) :
    IsData h' t v := by
  have hread := hd.reads.allocated.and (by decide) (Q := (· ≠ c.attributes)) (fun u w hu hplain =>
    hl.not_own_data ⟨hu.mono fun _ hr => hr.1, hplain⟩) hd.plain
  have hagree : Agree (fun r => (h.Free r ∧ r.index < h.size) ∧ r ≠ c.attributes) h h' :=
    ⟨hc.size_le, fun r hr => (hc.free r hr.1.2 hr.2 hr.1.1).1⟩
  exact ⟨(hread.agree hagree).mono fun r hr => (hc.free r hr.1.2 hr.2 hr.1.1).2, hd.plain⟩

end Confined

namespace Holds

/-- A store that stays where it is, with sections that keep their cells. -/
theorem of_agree (hx : Holds h c scalar part) (hs : h'.Sound) (hl : Layout h' c scalar')
    (ha : ∀ name, Agree (h.Opens .stored (.ref (c.map name))) h h') :
    Holds h' c scalar' part where
  sound := hs
  layout := hl
  reads name := (hx.reads name).agree_opens (by decide) (ha name)
  tree name := (hx.tree name).agree ((hx.reads name).opened (by decide)) (ha name)
  separate name other hne := (hx.separate name other hne).agree
    ((hx.reads name).opened (by decide)) ((hx.reads other).opened (by decide)) (ha name) (ha other)

/-- The cells of a section, as far as a later heap opens them, were those before. -/
theorem opens_of_agree (hx : Holds h c scalar part) {name : SectionName}
    (ha : Agree (h.Opens .stored (.ref (c.map name))) h h') {r : Ref}
    (ho : h'.Opens .stored (.ref (c.map name)) r) : h.Opens .stored (.ref (c.map name)) r :=
  ((hx.reads name).opened (by decide)).opens_of_agree ha ho

/-- A larger heap has the store as it was. -/
theorem grows {building : Building} (hx : Holds h c scalar part) (hg : Grows building h h') :
    Holds h' c scalar part ∧ Confined c h h' := by
  have ha : ∀ name, Agree (h.Opens .stored (.ref (c.map name))) h h' := fun name =>
    hg.cells.agree fun _ ho => (hx.reads name).opens_lt ho
  exact ⟨hx.of_agree hg.sound (hx.layout.keepsFree hg.keepsFree) ha,
    .of_opens hg.cells.size_le (fun r hr _ => hg.cells.read_eq r hr)
      (fun name r ho => .inl (hx.opens_of_agree (ha name) ho))
      (fun _ _ hr => hg.cells.read_of_some hr) fun r hr _ => hg.keepsFree.free r hr⟩

/-- The attributes of a store can be changed without a change of its sections. -/
theorem spares (hx : Holds h c scalar part) (hs : Spares c.attributes h h')
    (hl : Layout h' c scalar') : Holds h' c scalar' part ∧ Confined c h h' ∧
      ∀ name, Agree (h.Opens .stored (.ref (c.map name))) h h' := by
  have ha : ∀ name, Agree (h.Opens .stored (.ref (c.map name))) h h' := fun name =>
    hs.cells.mono fun r ho => ⟨fun heq =>
      hx.layout.not_opens hx.sound name (.inl rfl) (heq ▸ ho), (hx.reads name).opens_lt ho⟩
  refine ⟨hx.of_agree hs.sound hl ha, .of_opens hs.cells.size_le
    (fun r hr hn => hs.cells.read_eq r ⟨fun heq => hn (.inl heq), hr⟩)
    (fun name r ho => .inl (hx.opens_of_agree (ha name) ho)) (fun r items hr => ?_)
    fun r hr hne hf => ⟨hs.cells.read_eq r ⟨hne, hr⟩, hs.free hf⟩, ha⟩
  refine (hs.cells.read_eq r ⟨fun heq => ?_, lt_size_of_read hr⟩).trans hr
  rw [heq, hx.layout.attributes] at hr
  cases hr

/-- The sections of a store are maps. -/
theorem isMap_part (hx : Holds h c scalar part) (name : SectionName) :
    (part name).isMap = true := by
  have hr := hx.reads name
  exact hr.isMap_iff.mpr (hr.isMap_stored.mp (hx.layout.map name))

/-- What is no part of one section is not changed with it. -/
theorem agree_of_overlaid (hx : Holds h c scalar part) {name other : SectionName}
    (ho : Overlaid (c.map name) t h h') (hne : other ≠ name) :
    Agree (h.Opens .stored (.ref (c.map other))) h h' := by
  refine ho.tended.agree fun r hr => ⟨(hx.reads other).opens_lt hr, ?_⟩
  rintro ⟨hr', cell, hcell, hcontainer⟩
  exact not_vacant_of_read hcell hcontainer (hx.separate other name hne r hr hr')

/-- A store with one section written over keeps its other sections, and all are separate. -/
theorem of_overlaid (hx : Holds h c scalar part) (hl : Layout h' c scalar) {name : SectionName}
    (ho : Overlaid (c.map name) t h h') :
    Holds h' c scalar (Function.update part name t) := by
  have hothers : ∀ other, other ≠ name → Agree (h.Opens .stored (.ref (c.map other))) h h' :=
    fun other hne => hx.agree_of_overlaid ho hne
  refine ⟨ho.sound, hl, fun other => ?_, fun other => ?_, fun first second hne => ?_⟩
  · by_cases heq : other = name
    · subst heq
      rw [Function.update_self]
      exact ho.reads
    · rw [Function.update_of_ne heq]
      exact (hx.reads other).agree_opens (by decide) (hothers other heq)
  · by_cases heq : other = name
    · subst heq
      exact ho.tree
    · exact (hx.tree other).agree ((hx.reads other).opened (by decide)) (hothers other heq)
  · -- what the section opens now are cells that it opened before, or new ones
    have hkept : ∀ other, other ≠ name →
        Separate h' (.ref (c.map other)) (.ref (c.map name)) := fun other hne =>
      (hx.separate other name hne).of_opens (hx.reads other) (hothers other hne) ho.tended.opens
    by_cases hfirst : first = name
    · subst hfirst
      exact (hkept second fun heq => hne heq.symm).symm
    · by_cases hsecond : second = name
      · subst hsecond
        exact hkept first hfirst
      · exact (hx.separate first second hne).agree ((hx.reads first).opened (by decide))
          ((hx.reads second).opened (by decide)) (hothers first hfirst) (hothers second hsecond)

/-- Writing over a section changes the store only. -/
theorem confined_of_overlaid (hx : Holds h c scalar part) {name : SectionName}
    (ho : Overlaid (c.map name) t h h') (hk : KeepsFree h h') : Confined c h h' := by
  refine .of_opens ho.tended.size_le
    (fun r hr hn => ho.tended.read_eq r hr fun hp => hn (.inr ⟨name, hp⟩))
    (fun other r hr => ?_) (fun r items hr => ?_) fun r hr _ => hk.free r hr
  · by_cases heq : other = name
    · subst heq
      exact ho.tended.opens r hr
    · exact .inl (hx.opens_of_agree (hx.agree_of_overlaid ho heq) hr)
  · -- a list belongs to no map
    have hfree := hx.sound.free_of_read hr fun _ heq => by cases heq
    exact (hk.free r (lt_size_of_read hr) hfree).1.trans hr

/-- Merging a mapping that has no cell of the store into a section changes this section only. -/
theorem merge (hx : Holds h c scalar part) (name : SectionName)
    (hu : h.Reads .given (fun r => ¬ Own h c r) u v) (hmap : u.isMap = true) :
    ∃ h', AttributeMap.merge (c.map name) v h = .ok (.ref (c.map name)) h' ∧
      Holds h' c scalar (Function.update part name ((part name).overlay u)) ∧
      Confined c h h' ∧
      ∀ other, other ≠ name → Agree (h.Opens .stored (.ref (c.map other))) h h' := by
  have hmaps : ((part name).isMap && u.isMap) = true := by rw [hx.isMap_part name, hmap]; rfl
  obtain ⟨h', hrun, ho⟩ := AttributeMap.merge_overlay hx.sound (hx.reads name) (hx.tree name) hu
    (fun r hn hp => hn (.inr ⟨name, hp⟩)) hmaps
  have hkeeps := (AttributeMap.merge_outcome AttributeMap.upkeep_keepsFree.toCopyUpkeep hx.sound
    (hx.layout.map name) hu.fine).result hrun
  exact ⟨h', hrun, hx.of_overlaid (hx.layout.keepsFree hkeeps) ho,
    hx.confined_of_overlaid ho hkeeps, fun other hne => hx.agree_of_overlaid ho hne⟩

end Holds

/-- Cells that were vacant before a heap grew belong to no store that was there. -/
theorem Holds.not_own_of_vacant {building : Building} (hx : Holds h c scalar part)
    (hg : Grows building h h') {r : Ref} (hv : h.Vacant r) : ¬ Own h' c r := by
  rintro (rfl | ⟨name, ho, cell, hcell, hcontainer⟩)
  · exact hx.layout.not_vacant (.inl rfl) hv
  · have ho' := hx.opens_of_agree (hg.cells.agree fun _ ho => (hx.reads name).opens_lt ho) ho
    rw [hg.cells.read_eq r ((hx.reads name).opens_lt ho')] at hcell
    exact not_vacant_of_read hcell hcontainer hv

/-! ### New stores -/

variable {h₀ : Heap} {x : Contents}

/-- A store of plain data has separate sections while they are those of a new store. -/
theorem Stands.holds (hx : Stands h c x) (hf : Fresh h₀ h SectionName.all c.map) :
    ∃ scalar, Holds h c scalar x.part ∧
      ∀ name ∈ scalarNames, IsData h (x.scalar name) (scalar name) := by
  obtain ⟨scalar, hc, hd⟩ := hx.scalars
  exact ⟨scalar, ⟨hx.sound, hc, fun name => (hx.parts name).reads,
    fun name => hf.tree name (mem_all name),
    fun name other hne => hf.separate name (mem_all name) other (mem_all other) hne⟩, hd⟩

/-- Plain data that were there before a new store have no cell of it. -/
theorem Fresh.reads_apart (hf : Fresh h₀ h SectionName.all c.map) (hc : Layout h c scalar)
    (hl : Lasts h₀ h) (hd : IsData h₀ t v) :
    h.Reads .plain (fun r => h.Free r ∧ ¬ Own h c r) t v := by
  have hread := hl.reads (hd.reads.occupied (by decide) hd.plain)
  refine (hread.and (by decide) (Q := (· ≠ c.attributes)) (fun u w hu hplain =>
    hc.not_own_data ⟨hu.mono fun _ hr => hr.1, hplain⟩) hd.plain).mono fun r hr => ⟨hr.1.1, ?_⟩
  rintro (heq | ⟨name, ho, -⟩)
  · exact hr.2 heq
  · exact hr.1.2 ((hf.reads name (mem_all name)).within_of_opens ho)

end PageMeta.Settings
