import PageMeta.Proofs.AttributeMap.Owning
import PageMeta.Proofs.Settings.InUse

/-!
# Stores own their data

A store keeps copies of the sections that it loads, and of lists of locales.  So two stores that share
nothing still share nothing after both have loaded the same data, any number of times, and whoever has
one of them and the data cannot change the other, whatever they do.

## Key results

- `load_touches`: loading data is nothing but work on the store
- `Strangers.loaded`: stores that share nothing share nothing after loading
- `Strangers.agree`: whatever is done through one store, the other stays as it is
-/

namespace PageMeta.Settings

open Heap
open AttributeMap (Supplied Worked)

variable {h h' h₀ : Heap} {c c' : Cells} {scalar : String → Value} {v x : Value} {κ : Type}
  {call : Caller κ} {w w' : World κ} {hands : Ref → Prop} {es : Entries Key Value}

/-! ### The cells of a store -/

/-- A store leads to all its cells. -/
theorem Layout.leads (hc : Layout h c scalar) : h.Leads [.ref c.store] c.attributes ∧
    h.Leads [.ref c.store] c.sections ∧ ∀ name, h.Leads [.ref c.store] (c.map name) := by
  have hattributes : h.Leads [.ref c.store] c.attributes :=
    (leads_self c.store).step hc.store (List.mem_singleton_self _)
  have hsections : h.Leads [.ref c.store] c.sections := by
    refine hattributes.step hc.attributes (List.mem_flatMap.mpr
      ⟨(Key.ofText "_sections", .ref c.sections), ?_, by simp [Value.addresses]⟩)
    simp [attributeEntries, textKeys]
  refine ⟨hattributes, hsections, fun name => hsections.step hc.sections (List.mem_flatMap.mpr
    ⟨(Key.ofText name.name, .ref (c.map name)), ?_, by simp [Value.addresses]⟩)⟩
  exact List.mem_map_of_mem (mem_all name)

/-- Someone without a way to a store leaves it where it is. -/
theorem Layout.touches (hc : Layout h c scalar) (hthere : h.There [.ref c.store])
    (hready : Ready hands h) (ht : Touches hands h h')
    (hout : ∀ r, h.Leads [.ref c.store] r → ¬ hands r) : Layout h' c scalar := by
  have ha : Agree (h.Leads [.ref c.store]) h h' := ht.agree fun r hr =>
    ⟨hthere r hr, fun hh => absurd hh (hout r hr)⟩
  obtain ⟨hattributes, hsections, hmaps⟩ := hc.leads
  refine ⟨(ha.read_eq _ (leads_self _)).trans hc.store, (ha.read_eq _ hattributes).trans hc.attributes,
    (ha.read_eq _ hsections).trans hc.sections, fun name => ?_, fun r hr m hm => ?_⟩
  · obtain ⟨data, hread⟩ := read_of_isMap (hc.map name)
    exact isMap_of_read ((ha.read_eq _ (hmaps name)).trans hread)
  · -- a map that is in hand has nothing but what is in hand, and any other map is as it was
    by_cases hh : hands m
    · have hheld := ((Touches.closed ht hready.closed) m _ hh hm r (List.mem_singleton_self r)).1
      rcases hr with rfl | rfl | rfl
      · exact hout _ (leads_self _) hheld
      · exact hout _ hattributes hheld
      · exact hout _ hsections hheld
    · have hlt : m.index < h.size := Nat.lt_of_not_le fun hge => hh (hready.spare m hge)
      exact hc.free r hr m ((Touches.read_eq ht hlt fun hh' => absurd hh' hh).symm.trans hm)

/-! ### Loading -/

/-- Whether a value is a scalar, or a list of scalars. -/
def IsSetting (h : Heap) (v : Value) : Prop :=
  v.isScalar = true ∨ ∃ items, h.cell? v = some (.list items) ∧ ∀ w ∈ items, w.isScalar = true

theorem IsSetting.agree {within : Ref → Prop} (hv : IsSetting h v) (ha : Agree within h h')
    (hheld : Held within v) : IsSetting h' v := by
  refine hv.imp_right fun ⟨items, hc, hitems⟩ => ⟨items, ?_, hitems⟩
  obtain ⟨r, rfl⟩ := ref_of_cell? hc
  exact (ha.read_eq r hheld.ref).trans hc

/-- Whether a value, as far as it is a dictionary, has nothing but scalars and lists of scalars for the
scalars of a store. -/
def PlainSettings (h : Heap) (x : Value) : Prop :=
  ∀ es, h.cell? x = some (.dict es) → ∀ name ∈ scalarNames, ∀ v,
    es.get? (Key.ofText name) = some v → IsSetting h v

/-- Data that stay as they are have what they had for the scalars. -/
theorem PlainSettings.agree (hx : PlainSettings h x) (hp : h.Pure [x])
    (ha : Agree (h.Leads [x]) h h') : PlainSettings h' x := by
  intro es hcell name hn v hget
  obtain ⟨r, rfl⟩ := ref_of_cell? hcell
  have hread : h.read r = some (.dict es) := (ha.read_eq r (leads_self r)).symm.trans hcell
  obtain ⟨k, hmem⟩ := Entries.exists_of_get? hget
  exact (hx es hread name hn v hget).agree ha
    (hp.there.closed.dict (leads_self r) hread _ hmem).2.of_live

/-- A scalar, or a list of scalars, is taken over as what holds no cell but a new one. -/
theorem copyScalar_touches (hs : h.Sound) (hr : Ready hands h) (hv : IsSetting h v) :
    Outcome (copyScalar v) h (fun w h' => KeepsFree h h' ∧ Touches hands h h' ∧ h'.Fine w ∧
      Held (h'.Live hands) w) fun _ => False := by
  refine Outcome.get_bind ?_
  rcases hv with hv | ⟨items, hc, hitems⟩
  · -- a scalar is no list
    have hno : h.cell? v = none := by cases v <;> first | rfl | cases hv
    rw [hno]
    exact ⟨.refl hs, .refl, ⟨Value.isMade_of_isScalar hv, fun r heq => by subst heq; cases hv⟩,
      held_of_addresses (Value.addresses_of_isScalar hv)⟩
  · rw [hc]
    obtain ⟨r, rfl⟩ := ref_of_cell? hc
    have hg : Grows .plain h (h.push (.list items)) :=
      .push_plain hs (hs.cells r _ hc) fun _ heq => by cases heq
    have hcell : HeldCell (h.Live hands) (.list items) := heldCell_list.mpr fun w hw =>
      held_of_addresses (Value.addresses_of_isScalar (hitems w hw))
    obtain ⟨ht, hlive⟩ := alloc_touches hcell hr
    exact ⟨hg.keepsFree, ht, ⟨rfl, fun r heq => by cases heq; exact hlive.2⟩, held_ref hlive⟩

/-- Assigning what is in hand to a scalar of a store in hand. -/
theorem assign_touches {name : String} (hp : Placed c h) (hr : Ready hands h) (hc : hands c.store)
    (hn : name ∈ scalarNames) (hv : h.Fine v) (hheld : Held (h.Live hands) v) :
    Outcome (Object.setAttribute (.ref c.store) name v) h
      (fun _ h' => Placed c h' ∧ Touches hands h h') fun _ => False := by
  obtain ⟨hs, scalar, hl⟩ := hp
  have hattributes : hands c.attributes := (hr.closed _ _ hc hl.store _ (List.mem_singleton_self _)).1
  have hspares := write_spares hs hl hn hv
  refine Outcome.of_ok (setAttribute_scalar hl hn) ⟨⟨hspares.sound, _, hl.write_scalar hspares⟩, ?_⟩
  refine write_touches hattributes hl.attributes ?_
  rw [← put_attributes hn]
  exact held_put (hr.closed.dict hattributes hl.attributes) (fun _ hr => nomatch hr) hheld

/-- Loading the scalars of data into a store in hand. -/
theorem loadScalars_touches (hr : Ready hands h₀) (hc : hands c.store) (hx : h₀.Pure [x])
    (hout : ∀ r, h₀.Leads [x] r → ¬ hands r) (hes : ∀ p ∈ es, Held (h₀.Leads [x]) p.2)
    (hsettings : ∀ name ∈ scalarNames, ∀ v, es.get? (Key.ofText name) = some v → IsSetting h₀ v) : ∀ {names : List String} {h : Heap},
    (∀ name ∈ names, name ∈ scalarNames) → Placed c h → Touches hands h₀ h →
    Outcome (loadScalars (.ref c.store) es names) h (fun _ h' => Placed c h' ∧ Touches hands h₀ h')
      fun _ => False
  | [], _, _, hp, ht => ⟨hp, ht⟩
  | name :: rest, h, hn, hp, ht => by
    obtain ⟨hname, hrest⟩ := List.forall_mem_cons.mp hn
    rw [loadScalars]
    cases hget : es.get? (Key.ofText name) with
    | none => exact loadScalars_touches hr hc hx hout hes hsettings hrest hp ht
    | some v =>
      -- the data are as they were, as they are out of hand
      have ha : Agree (h₀.Leads [x]) h₀ h := ht.agree fun r hr =>
        ⟨hx.there r hr, fun hh => absurd hh (hout r hr)⟩
      obtain ⟨k, hmem⟩ := Entries.exists_of_get? hget
      have hv := (hsettings name hname v hget).agree ha (hes _ hmem)
      refine Outcome.bind (Outcome.bind ((copyScalar_touches hp.1 (Touches.ready ht hr) hv).mono ?_
        fun _ => id))
      rintro u h₁ ⟨hk, ht₁, hfine, hheld⟩
      have ht₁ := ht.trans ht₁
      refine Outcome.bind ((assign_touches (hp.keepsFree hk) (Touches.ready ht₁ hr) hc hname hfine
        hheld).mono ?_ fun _ => id)
      rintro _ h₂ ⟨hp₂, ht₂⟩
      exact loadScalars_touches hr hc hx hout hes hsettings hrest hp₂ (ht₁.trans ht₂)

/-- What data have for a section are data. -/
theorem incoming_supplied {data : Ref} (hp : h₀.Pure [x]) (hs : h.Sound)
    (hout : ∀ r, h₀.Leads [x] r → ¬ hands r) (hx : Supplied h₀ [x] h (.ref data)) (name : SectionName) :
    Supplied h₀ [x] h (incoming h data name) := by
  have hupkeep := AttributeMap.copyUpkeep_data hp hout
  unfold incoming
  cases hget : (h.entriesAt data).get? (Key.ofText name.name) with
  | none => exact hupkeep.absent hx
  | some v =>
    obtain ⟨k, hmem⟩ := Entries.exists_of_get? hget
    exact hupkeep.entries hs hx _ hmem

/-- Loading data into a store in hand is nothing but work on what is in hand, if nothing of the data
is. -/
theorem load_touches (call : Caller κ) (hp : Placed c w.heap) (hr : Ready hands w.heap)
    (hc : hands c.store) (hx : w.heap.Pure [x]) (hout : ∀ r, w.heap.Leads [x] r → ¬ hands r)
    (hsettings : PlainSettings w.heap x) :
    Outcome (load call (.ref c.store) x) w
      (fun _ w' => Placed c w'.heap ∧ Touches hands w.heap w'.heap)
      fun w' => Placed c w'.heap ∧ Touches hands w.heap w'.heap := by
  have hself := AttributeMap.supplied_self hx
  refine Outcome.get_bind ?_
  dsimp only
  split
  · rename_i data es hcell
    have hes : ∀ p ∈ es, Held (w.heap.Leads [.ref data]) p.2 := fun p hmem =>
      (hx.there.closed.dict (leads_self data) hcell p hmem).2.of_live
    refine Outcome.bind (Outcome.onHeap ((loadScalars_touches hr hc hx hout hes (hsettings es hcell)
      (fun _ => id) hp .refl).mono ?_ fun _ => False.elim))
    rintro _ h₁ ⟨hp₁, ht₁⟩
    refine Outcome.bind ?_
    -- every merge of a section is work on the store, and the data are as they were
    have hupkeep := AttributeMap.copyUpkeep_data hx hout
    refine loadSections_outcome call (c := c) data
      (I := fun _ h => Placed c h ∧ Touches hands w.heap h)
      (F := fun h => Placed c h ∧ Touches hands w.heap h) (fun _ _ hi => hi.1.2)
      (fun _ _ _ hi _ => hi) (fun name rest h ⟨hp, ht⟩ => ?_) SectionName.all
      (w := { w with heap := h₁ }) ⟨hp₁, ht₁⟩
    obtain ⟨scalar, hl⟩ := hp.2
    have hready := Touches.ready ht hr
    have hsupplied : Supplied w.heap [.ref data] h (.ref data) :=
      ⟨ht.agree fun r hr => ⟨hx.there r hr, fun hh => absurd hh (hout r hr)⟩, hself.2⟩
    have hworkable : AttributeMap.Workable hands h (c.map name) :=
      ⟨hready, hl.map name, (leads_of_closed hready.closed (fun v hv => by
        rw [List.mem_singleton.mp hv]
        exact held_ref ⟨hc, lt_size_of_read hl.store⟩) (hl.leads.2.2 name)).1⟩
    have hincoming := incoming_supplied hx hp.1 hout hsupplied name
    refine ((AttributeMap.merge_outcome hupkeep hp.1 hworkable hincoming).and
      (AttributeMap.merge_outcome AttributeMap.upkeep_keepsFree.toCopyUpkeep hp.1 (hl.map name)
        (fine_incoming hp.1 data name))).mono ?_ ?_
    · exact fun _ _ hw => ⟨hp.keepsFree hw.2, ht.trans hw.1.touches⟩
    · exact fun _ hw => ⟨hp.keepsFree hw.2, ht.trans hw.1.touches⟩
  · exact ⟨hp, .refl⟩

/-! ### Two stores -/

/-- Whether two stores and data share nothing. -/
structure Strangers (h : Heap) (c c' : Cells) (x : Value) : Prop where
  placed : Placed c h
  placed' : Placed c' h
  there : h.There [.ref c.store]
  there' : h.There [.ref c'.store]
  data : h.Pure [x]
  settings : PlainSettings h x
  apart : h.Unshared [.ref c.store] [.ref c'.store]
  apartData : h.Unshared [.ref c.store] [x]
  apartData' : h.Unshared [.ref c'.store] [x]

namespace Strangers

theorem symm (hs : Strangers h c c' x) : Strangers h c' c x :=
  ⟨hs.placed', hs.placed, hs.there', hs.there, hs.data, hs.settings, hs.apart.symm, hs.apartData',
    hs.apartData⟩

/-- Stores and data that share nothing share nothing after the data were loaded into one of the
stores, whether that succeeds or fails. -/
theorem loaded (call : Caller κ) (hs : Strangers w.heap c c' x) :
    Strangers (stateAfter (load call (.ref c.store) x) w).heap c c' x := by
  have hready := hs.there.ready
  have hstore : w.heap.InHand [.ref c.store] c.store := .inl (leads_self _)
  have hout := fun r => hs.apart.not_inHand hs.there' (r := r)
  have houtData := fun r => hs.apartData.not_inHand hs.data.there (r := r)
  obtain ⟨hp, ht⟩ := Outcome.stateAfter
    (load_touches call hs.placed hready hstore hs.data houtData hs.settings)
  have hlive : ∀ v ∈ [Value.ref c.store],
      Held ((stateAfter (load call (.ref c.store) x) w).heap.Live (w.heap.InHand [.ref c.store])) v :=
    fun v hv => by
      obtain ⟨_, _, hl⟩ := hp
      rw [List.mem_singleton.mp hv]
      exact held_ref ⟨hstore, lt_size_of_read hl.store⟩
  obtain ⟨ha, hthere, hapart⟩ := unshared_of_touches hready ht hlive hs.there' hout
  obtain ⟨haData, -, hapartData⟩ := unshared_of_touches hready ht hlive hs.data.there houtData
  refine ⟨hp, ⟨hp.1, hs.placed'.2.imp fun _ hl => hl.touches hs.there' hready ht hout⟩, hthere,
    hs.there'.agree ha, hs.data.agree haData, hs.settings.agree hs.data haData, hapart, hapartData,
    hs.apartData'.agree ha haData⟩

end Strangers

/-! ### New stores -/

/-- The sections of a store are made of nothing but new cells. -/
theorem makeSections_touches : ∀ {names : List SectionName} {h h' : Heap} {es : Entries Key Value},
    Ready hands h → Store.makeSections names h = .ok es h' → Touches hands h h' ∧
      ∀ p ∈ es, HeldKey (h'.Live hands) p.1 ∧ Held (h'.Live hands) p.2
  | [], _, _, _, _, hrun => by
    cases hrun
    exact ⟨.refl, fun _ hp => absurd hp List.not_mem_nil⟩
  | name :: rest, _, _, _, hr, hrun => by
    obtain ⟨m, h₁, hmap, hrun⟩ := exists_of_bind_ok hrun
    obtain ⟨es, h₂, hrest, hrun⟩ := exists_of_bind_ok hrun
    cases hrun
    obtain ⟨ht, hm⟩ := (buildText_touches .wrapped hr (isPlain_defaultSection name)).result hmap
    obtain ⟨ht', hes⟩ := makeSections_touches (Touches.ready ht hr) hrest
    exact ⟨ht.trans ht', List.forall_mem_cons.mpr
      ⟨⟨heldKey_of_text? rfl, hm.later (Touches.size_le ht')⟩, hes⟩⟩

/-- The attributes of a store are made of nothing but new cells. -/
theorem makeAttributes_touches {attributes : Entries String Value} (hr : Ready hands h)
    (hrun : Store.makeAttributes h = .ok attributes h') :
    Touches hands h h' ∧ ∀ p ∈ attributes, Held (h'.Live hands) p.2 := by
  obtain ⟨locales, h₁, hlocales, hrun⟩ := exists_of_bind_ok hrun
  obtain ⟨es, h₂, hes, hrun⟩ := exists_of_bind_ok hrun
  obtain ⟨sections, h₃, hdict, hrun⟩ := exists_of_bind_ok hrun
  cases hrun
  obtain ⟨ht₁, hheld₁⟩ := (buildText_touches .plain hr (t := defaultLocales) rfl).result hlocales
  have hr₁ := Touches.ready ht₁ hr
  obtain ⟨ht₂, hheld₂⟩ := makeSections_touches hr₁ hes
  obtain ⟨ht₃, hheld₃⟩ := (make_touches .plain (Touches.ready ht₂ hr₁) hheld₂).result hdict
  refine ⟨ht₁.trans (ht₂.trans ht₃), fun p hp => ?_⟩
  simp only [List.mem_cons, List.not_mem_nil, or_false] at hp
  rcases hp with rfl | rfl | rfl | rfl
  · exact held_of_addresses rfl
  · exact held_of_addresses rfl
  · exact hheld₁.later (Touches.size_le (ht₂.trans ht₃))
  · exact hheld₃

/-- A store is made of nothing but new cells. -/
theorem create_touches (hr : Ready hands h) (hrun : Store.create h = .ok v h') :
    Touches hands h h' ∧ Held (h'.Live hands) v := by
  obtain ⟨attributes, h₁, hmake, hrun⟩ := exists_of_bind_ok hrun
  obtain ⟨dict, h₂, hdict, hrun⟩ := exists_of_bind_ok hrun
  obtain ⟨s, h₃, hstore, hrun⟩ := exists_of_bind_ok hrun
  cases hrun
  obtain ⟨ht₁, hheld⟩ := makeAttributes_touches hr hmake
  have hr₁ := Touches.ready ht₁ hr
  have hentries : HeldCell (h₁.Live hands) (.dict (textKeys attributes)) :=
    heldCell_dict.mpr fun p hp => by
      obtain ⟨q, hq, rfl⟩ := List.mem_map.mp hp
      exact ⟨heldKey_of_text? rfl, hheld q hq⟩
  obtain ⟨ht₂, hd⟩ := (alloc_touches hentries hr₁).result hdict
  obtain ⟨ht₃, hs⟩ := (alloc_touches (c := .store dict) (held_ref hd)
    (Touches.ready ht₂ hr₁)).result hstore
  exact ⟨ht₁.trans (ht₂.trans ht₃), held_ref hs⟩

/-- A new store shares nothing with what was there. -/
theorem create_unshared {vs : List Value} (hs : h.Sound) (hvs : h.There vs) :
    ∃ c g, Store.create h = .ok (.ref c.store) g ∧ Placed c g ∧ Grows .wrapped h g ∧
      g.There [.ref c.store] ∧ g.Unshared [.ref c.store] vs := by
  obtain ⟨c, g, hrun, hg, hstands, -⟩ := create_stands hs
  obtain ⟨ht, hheld⟩ := create_touches (ready_new h) hrun
  have hheldAll : ∀ v ∈ [Value.ref c.store], Held (g.Live fun r => h.size ≤ r.index) v := fun v hv => by
    rwa [List.mem_singleton.mp hv]
  obtain ⟨-, hthere, hunshared⟩ := unshared_of_touches (ready_new h) ht hheldAll hvs fun r hr =>
    Nat.not_le.mpr (hvs r hr)
  exact ⟨c, g, hrun, ⟨hg.sound, hstands.scalars.imp fun _ hl => hl.1⟩, hg, hthere, hunshared⟩

end PageMeta.Settings
