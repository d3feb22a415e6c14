import PageMeta.Proofs.Heap.Additions
import PageMeta.Proofs.Settings.InUse

/-!
# Stores side by side

A heap can have many stores: every reset leaves the old one to whoever holds it.  No two stores have
their attributes in the same dictionary, so whatever is done to one of them leaves all of them where
they are.

## Key results

- `Orderly`: every store stands, with attributes of its own
- `Orderly.edits`: writing to one store
- `Orderly.create`: making another one
- `StoreCall.after_edits`: a call on a store writes to this store, and to nothing but the heap
-/

namespace PageMeta

/-- A later world with the same current store and the same log. -/
structure World.Quiet {κ : Type} (w w' : World κ) : Prop where
  current : w'.current = w.current
  log : w'.log = w.log

theorem World.Quiet.trans {κ : Type} {w w' w'' : World κ} (h₁ : w.Quiet w') (h₂ : w'.Quiet w'') :
    w.Quiet w'' := ⟨h₂.current.trans h₁.current, h₂.log.trans h₁.log⟩

/-- What is done to the heap is done to nothing else. -/
theorem Outcome.onHeap_quiet {κ α : Type} {w : World κ} {act : Heap.Action α}
    {ok : α → Heap → Prop} {failed : Heap → Prop} (ha : Outcome act w.heap ok failed) :
    Outcome (Action.onHeap act) w (fun a w' => ok a w'.heap ∧ w.Quiet w')
      fun w' => failed w'.heap ∧ w.Quiet w' :=
  Outcome.onHeap (ha.mono (fun _ _ hok => ⟨hok, rfl, rfl⟩) fun _ hf => ⟨hf, rfl, rfl⟩)

namespace Settings

open Heap

variable {h h' h'' : Heap} {c : Cells} {scalar : String → Value} {v : Value} {r : Ref} {κ : Type}
  {w : World κ}

/-- Whether a cell is the one of a store. -/
def IsStore (h : Heap) (r : Ref) : Prop := ∃ attributes, h.read r = some (.store attributes)

theorem Layout.isStore (hc : Layout h c scalar) : IsStore h c.store := ⟨_, hc.store⟩

theorem IsStore.lt_size (hr : IsStore h r) : r.index < h.size :=
  hr.elim fun _ hread => lt_size_of_read hread

/-- A cell that is no store. -/
abbrev NoStore (c : Cell) : Prop := ∀ attributes, c ≠ .store attributes

theorem noStore_of_isContainer {c : Cell} (hc : c.isContainer = true) : NoStore c :=
  fun _ heq => by rw [heq] at hc; cases hc

/-! ### Writing to one store -/

/-- A later heap in which one store was written to: it stands, there is no new store, no cell that
belongs to no map is different but the attributes of the store, and no map has lost a key. -/
structure Edits (c : Cells) (h h' : Heap) : Prop extends Keeps h h' where
  adds : Adds NoStore h h'
  keys : HasKeys h h'
  free : ∀ r, r.index < h.size → r ≠ c.attributes → h.Free r → h'.read r = h.read r ∧ h'.Free r
  layout : ∃ scalar, Layout h' c scalar

namespace Edits

theorem of_keepsObjects (hc : Layout h c scalar) (hk : KeepsObjects h h') : Edits c h h' where
  toKeeps := hk.toKeeps
  adds := hk.adds.mono fun _ => noStore_of_isContainer
  keys := hk.keys
  free r hr _ := hk.free r hr
  layout := ⟨scalar, hc.keepsFree hk.toKeepsFree⟩

theorem refl (hs : h.Sound) (hc : Layout h c scalar) : Edits c h h := .of_keepsObjects hc (.refl hs)

theorem trans (h₁ : Edits c h h') (h₂ : Edits c h' h'') : Edits c h h'' where
  toKeeps := h₁.toKeeps.trans h₂.toKeeps
  adds := h₁.adds.trans h₂.adds
  keys := h₁.keys.trans h₂.keys
  free r hr hne hf := by
    obtain ⟨hread, hf'⟩ := h₁.free r hr hne hf
    obtain ⟨hread', hf''⟩ := h₂.free r (Nat.lt_of_lt_of_le hr h₁.size_le) hne hf'
    exact ⟨hread'.trans hread, hf''⟩
  layout := h₂.layout

/-- Assigning a scalar. -/
theorem assign {name : String} (hs : h.Sound) (hc : Layout h c scalar) (hn : name ∈ scalarNames)
    (hv : h.Fine v) :
    Outcome (Object.setAttribute (.ref c.store) name v) h (fun _ h' => Edits c h h')
      (Edits c h) := by
  have hspares := write_spares hs hc hn hv
  have hlayout := hc.write_scalar hspares
  refine Outcome.of_ok (setAttribute_scalar hc hn) ⟨⟨hspares.sound, hspares.cells.size_le, ?_⟩,
    Adds.write fun _ heq => (by cases heq),
    .write (fun data heq => by rw [hc.attributes] at heq; cases heq) (hc.free _ (.inr (.inl rfl))),
    fun r hr hne hf => ⟨hspares.cells.read_eq r ⟨hne, hr⟩, hspares.free hf⟩, _, hlayout⟩
  intro m hm
  obtain ⟨data, hread⟩ := read_of_isMap hm
  refine isMap_of_read ((hspares.cells.read_eq m ⟨fun heq => ?_, lt_size_of_read hread⟩).trans hread)
  rw [heq, hc.attributes] at hread
  cases hread

end Edits

/-! ### Calls on one store -/

/-- A scalar that is about to be stored is copied into new lists, if at all. -/
theorem copyScalar_keepsObjects (hs : h.Sound) (hv : h.Fine v) :
    Outcome (copyScalar v) h (fun x h' => h'.Fine x ∧ KeepsObjects h h') (KeepsObjects h) := by
  have hfurnishes : Furnishes (copyScalar v) := by
    refine .bind ⟨fun g => Adds.refl _ g⟩ fun g => ?_
    split
    · exact .bind (.alloc rfl) fun _ => .pure _
    · exact .pure v
  obtain ⟨x, h₁, hrun, hg, hx, -⟩ := copyScalar_takes hs hv
  exact Outcome.of_ok hrun ⟨hx, .of_grows hg, hfurnishes.adds hrun⟩

/-- Loading scalars writes to the store only. -/
theorem loadScalars_edits {es : Entries Key Value} :
    ∀ {names : List String} {h : Heap} {scalar : String → Value},
      (∀ name ∈ names, name ∈ scalarNames) → h.Sound → Layout h c scalar → (∀ p ∈ es, h.Fine p.2) →
      Outcome (loadScalars (.ref c.store) es names) h (fun _ h' => Edits c h h') (Edits c h)
  | [], _, _, _, hs, hc, _ => Edits.refl hs hc
  | name :: rest, h, scalar, hn, hs, hc, hes => by
    obtain ⟨hname, hrest⟩ := List.forall_mem_cons.mp hn
    have hnext : ∀ {g : Heap}, Edits c h g →
        Outcome (loadScalars (.ref c.store) es rest) g (fun _ h' => Edits c h h') (Edits c h) := by
      intro g hg
      obtain ⟨scalar', hc'⟩ := hg.layout
      exact (loadScalars_edits hrest hg.sound hc' fun p hp => hg.toKeeps.fine (hes p hp)).mono
        (fun _ _ => hg.trans) fun _ => hg.trans
    rw [loadScalars]
    cases hget : es.get? (Key.ofText name) with
    | none => exact hnext (.refl hs hc)
    | some v =>
      obtain ⟨k, hmem⟩ := Entries.exists_of_get? hget
      -- the value is copied, the copy assigned, and then the other scalars are loaded
      refine Outcome.bind ((copyScalar_keepsObjects hs (hes _ hmem)).mono ?_ fun _ =>
        Edits.of_keepsObjects hc)
      rintro x h₁ ⟨hx, hk⟩
      have hcopied := Edits.of_keepsObjects hc hk
      have hassign := Edits.assign hk.sound (hc.keepsFree hk.toKeepsFree) hname hx
      exact Outcome.bind (hassign.mono (fun _ _ he => hnext (hcopied.trans he))
        fun _ => hcopied.trans)

/-- What holds of a later world in which one store was written to. -/
abbrev Edited (c : Cells) (w w' : World κ) : Prop := Edits c w.heap w'.heap ∧ w.Quiet w'

theorem Edited.trans {w' w'' : World κ} (h₁ : Edited c w w') (h₂ : Edited c w' w'') :
    Edited c w w'' := ⟨h₁.1.trans h₂.1, h₁.2.trans h₂.2⟩

/-- Loading sections writes to the store only. -/
theorem loadSections_edits (call : Caller κ) (data : Ref) :
    ∀ (names : List SectionName) {w : World κ} {scalar : String → Value}, w.heap.Sound →
      Layout w.heap c scalar → Outcome (loadSections call (.ref c.store) data names) w
        (fun _ w' => Edited c w w') (Edited c w)
  | [], _, _, hs, hc => ⟨.refl hs hc, rfl, rfl⟩
  | name :: rest, w, scalar, hs, hc => by
    have hnext : ∀ {w' : World κ}, Edited c w w' →
        Outcome (loadSections call (.ref c.store) data rest) w' (fun _ => Edited c w)
          (Edited c w) := by
      intro w' hw'
      obtain ⟨scalar', hc'⟩ := hw'.1.layout
      exact (loadSections_edits call data rest hw'.1.sound hc').mono (fun _ _ => hw'.trans)
        fun _ => hw'.trans
    have hsame : Edited c w w := ⟨.refl hs hc, rfl, rfl⟩
    refine Outcome.get_bind ?_
    dsimp only
    split
    · exact hnext hsame
    · refine Outcome.bind (Outcome.of_ok (sectionNamed_ok hc name) (Outcome.bind ?_))
      refine Outcome.get_bind ?_
      rw [hc.map name]
      have hmerge := AttributeMap.merge_outcome AttributeMap.upkeep_keepsObjects.toCopyUpkeep hs (hc.map name)
        (fine_incoming hs data name)
      exact Outcome.discard (hmerge.onHeap_quiet.mono
        (fun _ _ hk => hnext ⟨.of_keepsObjects hc hk.1, hk.2⟩)
        fun _ hk => ⟨.of_keepsObjects hc hk.1, hk.2⟩)

/-- Loading writes to the store only, whatever is loaded. -/
theorem load_edits (call : Caller κ) (hs : w.heap.Sound) (hc : Layout w.heap c scalar)
    (hv : w.heap.Fine v) :
    Outcome (load call (.ref c.store) v) w (fun _ w' => Edited c w w') (Edited c w) := by
  refine Outcome.get_bind ?_
  dsimp only
  split
  · rename_i data entries hcell
    have hscalars := loadScalars_edits (fun _ => id) hs hc (hs.cells data _ hcell).2
    refine Outcome.bind (hscalars.onHeap_quiet.mono (fun _ w₁ hw₁ => ?_) fun _ => id)
    obtain ⟨scalar', hc'⟩ := hw₁.1.layout
    have hsections := loadSections_edits call data SectionName.all hw₁.1.sound hc'
    exact Outcome.bind (hsections.mono (fun _ _ => Edited.trans hw₁) fun _ => Edited.trans hw₁)
  · exact ⟨.refl hs hc, rfl, rfl⟩

/-- A call writes to its store only. -/
theorem StoreCall.after_edits (call : Caller κ) {step : StoreCall} (hs : w.heap.Sound)
    (hc : Layout w.heap c scalar) (hm : step.Made w.heap) :
    Edited c w (step.after call (.ref c.store) w) := by
  have houtcome : Outcome (step.run call (.ref c.store)) w (fun _ => Edited c w) (Edited c w) := by
    cases step with
    | load data => exact Outcome.discard (load_edits call hs hc hm)
    | assign name value => exact (Edits.assign hs hc hm.1 hm.2).onHeap_quiet
    | write map =>
      have hwrite := AttributeMap.MapCall.write_outcome AttributeMap.upkeep_keepsObjects hs hm
      exact hwrite.onHeap_quiet.mono (fun _ _ hk => ⟨.of_keepsObjects hc hk.1, hk.2⟩)
        fun _ hk => ⟨.of_keepsObjects hc hk.1, hk.2⟩
  rw [after_eq]
  exact houtcome.stateAfter

/-! ### All stores -/

/-- Whether every store of a sound heap stands, and no two of them have the same attributes. -/
structure Orderly (h : Heap) : Prop where
  sound : h.Sound
  stands : ∀ r, IsStore h r → ∃ c scalar, c.store = r ∧ Layout h c scalar
  apart : ∀ r r' attributes, h.read r = some (.store attributes) →
    h.read r' = some (.store attributes) → r = r'

/-- A store stands where it was as long as its own cells and the maps stay. -/
theorem Layout.stays (hc : Layout h c scalar) (hm : ∀ m, h.isMap (.ref m) = true →
    h'.isMap (.ref m) = true) (hstay : ∀ r, r = c.store ∨ r = c.attributes ∨ r = c.sections →
      h'.read r = h.read r ∧ h'.Free r) : Layout h' c scalar where
  store := (hstay _ (.inl rfl)).1.trans hc.store
  attributes := (hstay _ (.inr (.inl rfl))).1.trans hc.attributes
  sections := (hstay _ (.inr (.inr rfl))).1.trans hc.sections
  map name := hm _ (hc.map name)
  free r hr := (hstay r hr).2

theorem Layout.index_lt (hc : Layout h c scalar)
    (hr : r = c.store ∨ r = c.attributes ∨ r = c.sections) : r.index < h.size := by
  rcases hr with rfl | rfl | rfl
  · exact lt_size_of_read hc.store
  · exact lt_size_of_read hc.attributes
  · exact lt_size_of_read hc.sections

/-- Of the cells of a store, the attributes of another store are none. -/
theorem Layout.ne_attributes {other : Cells} {scalar' : String → Value} (hc : Layout h c scalar)
    (ho : Layout h other scalar') (hne : other.attributes ≠ c.attributes)
    (hr : r = other.store ∨ r = other.attributes ∨ r = other.sections) : r ≠ c.attributes := by
  rcases hr with rfl | rfl | rfl
  · intro heq
    have hread := hc.attributes
    rw [← heq, ho.store] at hread
    cases hread
  · exact hne
  · intro heq
    -- there are fewer attributes than sections
    have hread := hc.attributes
    rw [← heq, ho.sections] at hread
    have hlen := congrArg List.length (Cell.dict.inj (Option.some.inj hread))
    cases hlen

namespace Orderly

/-- A heap without new stores, in which the cells that belong to no map stay. -/
theorem keepsFree (ho : Orderly h) (hk : KeepsFree h h') (ha : Adds NoStore h h') : Orderly h' where
  sound := hk.sound
  stands r hr := by
    obtain ⟨attributes, hread⟩ := hr
    obtain ⟨c, scalar, heq, hc⟩ := ho.stands r ⟨_, ha.read_of_not hread fun hn => hn _ rfl⟩
    exact ⟨c, scalar, heq, hc.keepsFree hk⟩
  apart r r' attributes hr hr' := ho.apart r r' attributes
    (ha.read_of_not hr fun hn => hn _ rfl) (ha.read_of_not hr' fun hn => hn _ rfl)

/-- Writing to one store leaves every store where it was. -/
theorem edits (ho : Orderly h) (hc : Layout h c scalar) (he : Edits c h h') : Orderly h' where
  sound := he.sound
  stands r hr := by
    obtain ⟨attributes, hread⟩ := hr
    have hread := he.adds.read_of_not hread fun hn => hn _ rfl
    obtain ⟨other, scalar', rfl, hother⟩ := ho.stands r ⟨_, hread⟩
    by_cases hstore : other.store = c.store
    · obtain ⟨scalar₁, hc₁⟩ := he.layout
      exact ⟨c, scalar₁, hstore.symm, hc₁⟩
    · refine ⟨other, scalar', rfl, hother.stays he.maps fun r hr => ?_⟩
      have hne : other.attributes ≠ c.attributes := fun heq =>
        hstore (ho.apart _ _ _ (heq ▸ hother.store) hc.store)
      exact he.free r (hother.index_lt hr) (hc.ne_attributes hother hne hr) (hother.free r hr)
  apart r r' attributes hr hr' := ho.apart r r' attributes
    (he.adds.read_of_not hr fun hn => hn _ rfl) (he.adds.read_of_not hr' fun hn => hn _ rfl)

end Orderly

/-- A store is no dictionary, so it stays where it is. -/
theorem IsStore.edits (hs : h.Sound) (hc : Layout h c scalar) (he : Edits c h h')
    (hr : IsStore h r) : IsStore h' r := by
  obtain ⟨attributes, hread⟩ := hr
  have hfree := hs.free_of_read hread fun _ heq => by cases heq
  refine ⟨attributes, (he.free r (lt_size_of_read hread) (fun heq => ?_) hfree).1.trans hread⟩
  rw [heq, hc.attributes] at hread
  cases hread

theorem IsStore.keepsFree (hs : h.Sound) (hk : KeepsFree h h') (hr : IsStore h r) :
    IsStore h' r := by
  obtain ⟨attributes, hread⟩ := hr
  have hfree := hs.free_of_read hread fun _ heq => by cases heq
  exact ⟨attributes, (hk.free r (lt_size_of_read hread) hfree).1.trans hread⟩

/-! ### Making a store -/

theorem makeSections_furnishes : ∀ names, Furnishes (Store.makeSections names)
  | [] => .pure _
  | name :: rest => by
    rw [Store.makeSections]
    exact (buildText_furnishes .wrapped _).bind fun _ =>
      (makeSections_furnishes rest).bind fun _ => .pure _

theorem makeAttributes_furnishes : Furnishes Store.makeAttributes := by
  have hdict : ∀ es, Furnishes (newDict es) := fun _ => .bind (.alloc rfl) fun _ => .pure _
  rw [Store.makeAttributes]
  refine (buildText_furnishes .plain defaultLocales).bind fun locales => ?_
  refine (makeSections_furnishes SectionName.all).bind fun es => ?_
  exact (hdict es).bind fun _ => .pure _

/-- A later heap with one more store, over a new dictionary. -/
structure MakesStore (s : Ref) (h h' : Heap) : Prop where
  new : h.size ≤ s.index
  attributes : ∃ attributes, h'.read s = some (.store attributes) ∧ h.size ≤ attributes.index
  cells : ∀ r c, h'.read r = some c → r = s ∨ NoStore c ∨ h.read r = some c

theorem create_makesStore (hrun : Store.create h = .ok v h') :
    ∃ s, v = .ref s ∧ MakesStore s h h' := by
  cases hattributes : Store.makeAttributes h with
  | error e h₁ =>
    rw [Store.create, run_bind_error hattributes] at hrun
    cases hrun
  | ok es h₁ =>
    have hmade := makeAttributes_furnishes.adds hattributes
    rw [Store.create, run_bind_ok hattributes] at hrun
    cases hrun
    generalize hd : h₁.push (.dict (textKeys es)) = h₂
    have hadds : Adds (·.isContainer = true) h h₂ := hmade.trans (hd ▸ .push rfl)
    refine ⟨_, rfl, hadds.size_le, ⟨_, read_alloc_new _ _, hmade.size_le⟩, fun r c hr => ?_⟩
    rcases read_push_cases hr with ⟨heq, -⟩ | hr
    · exact .inl heq
    · exact .inr ((hadds.cells r c hr).imp_left noStore_of_isContainer)

/-- A new store stands, and so do all others. -/
theorem Orderly.create (ho : Orderly h) :
    ∃ (c : Cells) (scalar : String → Value) (h' : Heap), Store.create h = .ok (.ref c.store) h' ∧
      Orderly h' ∧ KeepsFree h h' ∧ MakesStore c.store h h' ∧ Layout h' c scalar := by
  obtain ⟨c, h', hrun, hg, hstands, -⟩ := create_stands ho.sound
  obtain ⟨scalar, hc, -⟩ := hstands.scalars
  obtain ⟨s, heq, hm⟩ := create_makesStore hrun
  cases heq
  have hk := hg.keepsFree
  -- a store of the later heap is the new one, or stands where it stood
  have hcases : ∀ r attributes, h'.read r = some (.store attributes) →
      r = c.store ∨ h.read r = some (.store attributes) := fun r attributes hr =>
    (hm.cells r _ hr).imp_right fun hor => hor.resolve_left fun hn => hn _ rfl
  refine ⟨c, scalar, h', hrun, ⟨hk.sound, fun r hr => ?_, fun r r' attributes hr hr' => ?_⟩, hk, hm,
    hc⟩
  · obtain ⟨attributes, hread⟩ := hr
    rcases hcases r attributes hread with rfl | hold
    · exact ⟨c, scalar, rfl, hc⟩
    · obtain ⟨other, scalar', heq, hother⟩ := ho.stands r ⟨_, hold⟩
      exact ⟨other, scalar', heq, hother.keepsFree hk⟩
  · have hnew : ∀ s, h'.read c.store = some (.store attributes) →
        h.read s ≠ some (.store attributes) := by
      intro s hs hold
      obtain ⟨own, hown, hge⟩ := hm.attributes
      rw [hown] at hs
      cases hs
      obtain ⟨other, scalar', rfl, hother⟩ := ho.stands s ⟨_, hold⟩
      rw [hother.store] at hold
      cases hold
      exact absurd (lt_size_of_read hother.attributes) (Nat.not_lt.mpr hge)
    rcases hcases r attributes hr with rfl | hold
    · rcases hcases r' attributes hr' with rfl | hold'
      · rfl
      · exact absurd hold' (hnew r' hr)
    · rcases hcases r' attributes hr' with rfl | hold'
      · exact absurd hold (hnew r hr')
      · exact ho.apart r r' attributes hold hold'

end Settings

end PageMeta
