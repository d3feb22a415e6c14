import PageMeta.Proofs.AttributeMap.Sharing
import PageMeta.Proofs.Heap.Equality
import PageMeta.Proofs.Settings.Loading

/-!
# Writing a store down and loading it again

A store that holds plain data is written down as plain data.  A new store that loads them has its
defaults merged with the sections that were written down, so it shows the same if every section has
every key of its defaults, at every depth where both are maps.

## Key results

- `toDict_data`: a store is written down as its contents
- `load_fresh`: a new store has the deep merge of the defaults and what it loads
-/

namespace PageMeta.Settings

open Heap

variable {h h' : Heap} {c : Cells} {x : Contents} {t : Tree String} {v : Value} {κ : Type}
  {call : Caller κ} {w : World κ}

/-! ### Writing down -/

/-- The map of a section is written out as plain data. -/
theorem plainOf_data (call : Caller κ) {m : Ref} (hs : w.heap.Sound) (hm : w.heap.isMap (.ref m) = true)
    (hc : IsContent w.heap t (.ref m)) :
    ∃ v h', plainOf call (.ref m) w = .ok v { w with heap := h' } ∧ Grows .plain w.heap h' ∧
      IsData h' t v := by
  obtain ⟨v, h', hrun, hg, hd⟩ := unwrap_data hs hc
  have htoDict : AttributeMap.toDict m w.heap = .ok v h' := hrun
  refine ⟨v, h', ?_, hg, hd⟩
  simp only [plainOf, bind, EStateM.bind, run_get, hm,
    Action.onHeap, htoDict]

/-- The sections are written down in order. -/
theorem sectionDicts_data (call : Caller κ) :
    ∀ (names : List SectionName) {w : World κ}, Stands w.heap c x →
    ∃ es h', sectionDicts call (.ref c.store) names w = .ok es { w with heap := h' } ∧
      Grows .plain w.heap h' ∧ h'.ReadsEntries .plain h'.Free
        (names.map fun name => (name.name, x.part name)) (textKeys es)
  | [], w, hx => ⟨[], w.heap, rfl, .refl hx.sound, rfl⟩
  | name :: rest, w, hx => by
    obtain ⟨scalar, hc, -⟩ := hx.scalars
    obtain ⟨v, h₁, hplain, hg₁, hd⟩ :=
      plainOf_data call hx.sound (hc.map name) (hx.parts name)
    obtain ⟨es, h₂, hrest, hg₂, hr⟩ :=
      sectionDicts_data call rest (w := { w with heap := h₁ }) (hx.grows hg₁)
    refine ⟨(name.name, v) :: es, h₂, ?_, hg₁.trans hg₂,
      ⟨Key.ofText name.name, v, textKeys es, rfl, rfl, (hd.lasts hg₂.lasts).reads, hr⟩⟩
    simp only [sectionDicts, bind, EStateM.bind, sectionNamed_ok hc, hplain, hrest]
    rfl

/-- A store that holds plain data has contents that are plain data. -/
theorem Stands.isPlain (hx : Stands h c x) : x.tree.isPlain = true := by
  obtain ⟨scalar, -, hd⟩ := hx.scalars
  refine Tree.allLeavesEntries_iff.mpr fun p hp => ?_
  rcases List.mem_append.mp hp with hp | hp
  · obtain ⟨name, hn, rfl⟩ := List.mem_map.mp hp
    exact (hd name hn).plain
  · obtain ⟨name, -, rfl⟩ := List.mem_map.mp hp
    exact (hx.parts name).plain

/-- A store is written down as its contents. -/
theorem toDict_data (call : Caller κ) (hx : Stands w.heap c x) :
    ∃ v h', toDict call (.ref c.store) w = .ok v { w with heap := h' } ∧
      Grows .plain w.heap h' ∧ IsData h' x.tree v := by
  obtain ⟨scalar, hc, hd⟩ := hx.scalars
  have hattr : ∀ name ∈ scalarNames, Object.getAttribute (.ref c.store) name w.heap =
      .ok (scalar name) w.heap := fun name hn =>
    getAttribute_scalar hc hn (hd name hn).reads.fine.1
  obtain ⟨locales, h₁, hcopy, hg₁, hlocales⟩ :=
    copyScalar_data hx.sound (hd "available_locales" (by decide))
  obtain ⟨es, h₂, hsections, hg₂, hr⟩ :=
    sectionDicts_data call SectionName.all (w := { w with heap := h₁ }) (hx.grows hg₁)
  have hkept : ∀ name ∈ scalarNames, IsData h₂ (x.scalar name) (scalar name) := fun name hn =>
    (hd name hn).lasts (hg₁.lasts.trans hg₂.lasts)
  -- the scalars come first, then the sections, each with a name of its own
  have hread : h₂.ReadsEntries .plain h₂.Free x.entries
      (textKeys ([("site_name", scalar "site_name"), ("default_locale", scalar "default_locale"),
        ("available_locales", locales)] ++ es)) :=
    ⟨_, _, _, rfl, rfl, (hkept "site_name" (by decide)).reads,
      _, _, _, rfl, rfl, (hkept "default_locale" (by decide)).reads,
      _, _, _, rfl, rfl, (hlocales.lasts hg₂.lasts).reads, hr⟩
  obtain ⟨v, h₃, hdict, hg₃, hv⟩ := newDict_data hg₂.sound x.nodup_entries hread hx.isPlain
  refine ⟨v, h₃, ?_, (hg₁.trans hg₂).trans hg₃, hv⟩
  simp only [toDict, bind, EStateM.bind, Action.onHeap, hattr "site_name" (by decide),
    hattr "default_locale" (by decide), hattr "available_locales" (by decide), hcopy, hsections,
    hdict]

/-! ### Loading into a new store -/

/-- The state of a new store in the course of loading: some sections wait and are as before, the
others have been merged. -/
structure Partway (g h : Heap) (map : SectionName → Ref) (part : SectionName → Tree String)
    (waiting : List SectionName) : Prop where
  lasts : Lasts g h
  waits : ∀ name ∈ waiting, Agree (g.Opens .stored (.ref (map name))) g h
  done : ∀ name, name ∉ waiting →
    h.Reads .stored (fun r => g.Opens .stored (.ref (map name)) r ∨ g.Vacant r)
      ((defaultSection name).deepMerge (part name)) (.ref (map name))
  vacant : ∀ r, h.Vacant r → g.Vacant r

variable {h₀ g : Heap} {map : SectionName → Ref} {part : SectionName → Tree String}

/-- Merging one more section. -/
theorem Partway.merge {name : SectionName} {rest : List SectionName}
    {us : Entries String (Tree String)} (hp : Partway g h map part (name :: rest))
    (hn : name ∉ rest) (hf : Fresh h₀ g SectionName.all map) (hpart : part name = .map us)
    (hv : h.Reads .plain (fun r => h.Free r ∧ ¬ h₀.Vacant r) (part name) v)
    (hplain : (part name).isPlain = true) :
    ∃ h', AttributeMap.merge (map name) v h = .ok (.ref (map name)) h' ∧
      Partway g h' map part rest := by
  have hs := hp.lasts.sound
  have hold := (hf.reads name (mem_all name)).opened (by decide)
  have hagree := hp.waits name List.mem_cons_self
  have hread := hold.agree hagree
  have htree := (hf.tree name (mem_all name)).agree hold hagree
  have hd : IsData h (part name) v := ⟨hv.mono fun _ hr => hr.1, hplain⟩
  -- what is written is part of the map of the section, and so was there before
  have hwas : ∀ r, AttributeMap.Part h (map name) r →
      g.Opens .stored (.ref (map name)) r ∧ ¬ g.Vacant r := by
    rintro r ⟨ho, cell, hcell, hcontainer⟩
    have ho' := hold.opens_of_agree hagree ho
    exact ⟨ho', not_vacant_of_read ((hagree.read_eq r ho').symm.trans hcell) hcontainer⟩
  have hapart : h.Reads .given (fun r => ¬ AttributeMap.Part h (map name) r) (part name) v :=
    (hv.mono fun r hr hin =>
      hr.2 ((hf.reads name (mem_all name)).within_of_opens (hwas r hin).1)).given
  have hmap : h.isMap (.ref (map name)) = true := hp.lasts.maps _ (hf.isMap (mem_all name))
  have hmerging := AttributeMap.Merging.of_apart (hread.mono fun _ _ => trivial) htree.mapsOnce hs
    (hapart.mono fun _ _ => trivial) (hv.distinct (by decide)) hapart.keysRead
    fun r hin ho => hapart.within_of_opens ho hin
  obtain ⟨sy, rfl, hjoint⟩ : ∃ sy, v = .ref sy ∧
      AttributeMap.Joint h (.ref (map name)) (.ref sy) := by
    rw [hpart] at hv
    obtain ⟨entries, he, -⟩ := hv
    obtain ⟨sy, rfl, -⟩ := ref_of_entries? he
    exact ⟨sy, rfl, hread.isMap_stored.mp hmap, by rw [entries?_given he]; rfl⟩
  obtain ⟨h', hrun, hmerged⟩ := AttributeMap.merge_ok hmerging hjoint
  have hlasts : Lasts h h' :=
    (AttributeMap.merge_outcome AttributeMap.upkeep_lasts.toCopyUpkeep hs hmap ⟨_, hd⟩).result hrun
  -- the cells of the other sections are not written
  have hspared : ∀ other, name ≠ other → ∀ r, g.Opens .stored (.ref (map other)) r ∨ g.Vacant r →
      ∀ key, ¬ ∃ names, AttributeMap.Writes h (.ref (map name)) (.ref sy) names key r := by
    rintro other hne r hr key ⟨names, hw⟩
    obtain ⟨ho, hnv⟩ := hwas r (hw.part hread)
    have hsep := hf.separate name (mem_all name) other (mem_all other) hne
    exact hnv (hr.elim (hsep r ho) id)
  refine ⟨h', hrun, hp.lasts.trans hlasts, fun other ho => ?_, fun other ho => ?_, fun r hr =>
    hp.vacant r (hmerged.changes.vacant r hr)⟩
  · have hne : name ≠ other := fun heq => hn (heq ▸ ho)
    refine (hp.waits other (List.mem_cons_of_mem _ ho)).trans (hmerged.changes.agree (fun r hr => ?_)
      fun r hr => hspared other hne r (.inl hr))
    have hlt := (hf.reads other (mem_all other)).opens_lt hr
    exact Nat.lt_of_lt_of_le hlt hp.lasts.size_le
  · by_cases heq : name = other
    · subst heq
      refine hmerged.reads.mono fun r hr => ?_
      exact hr.elim (fun hv => .inr (hp.vacant r hv)) fun ho => .inl (hold.opens_of_agree hagree ho)
    · have hother := hp.done other fun hin => (List.mem_cons.mp hin).elim (heq ·.symm) ho
      exact hmerged.changes.reads hother (hspared other heq)

/-- What a store that is written down has for a section. -/
theorem incoming_reads {within : Ref → Prop} {data : Ref}
    (hr : h.Reads .plain within x.tree (.ref data)) (name : SectionName) :
    h.Reads .plain within (x.part name) (incoming h data name) := by
  have hread : h.Reads .plain within (offer x.entries name) (incoming h data name) :=
    offer_reads hr name
  rwa [offer, x.get?_part name] at hread

theorem isPlain_part (hp : x.tree.isPlain = true) (name : SectionName) :
    (x.part name).isPlain = true :=
  Tree.allLeavesEntries_iff.mp hp _ (Entries.mem_of_get? (x.get?_part name))

/-- The contents that a new store has after loading contents. -/
def Contents.reloaded (x : Contents) : Contents :=
  { x with part := fun name => (defaultSection name).deepMerge (x.part name) }

/-- A new store that loads what was written down has the scalars and the merged sections. -/
theorem load_fresh (call : Caller κ) (hx : Stands w.heap c defaultContents)
    (hf : Fresh h₀ w.heap SectionName.all c.map) (hmaps : ∀ name, ∃ us, x.part name = .map us)
    (hv : w.heap.Reads .plain (fun r => w.heap.Free r ∧ ¬ h₀.Vacant r) x.tree v)
    (hplain : x.tree.isPlain = true) :
    ∃ s w', load call (.ref c.store) v w = .ok s w' ∧ s = .ref c.store ∧
      Stands w'.heap c x.reloaded ∧ IsData w'.heap x.tree v := by
  refine Outcome.exists_ok (Outcome.get_bind ?_)
  obtain ⟨scalar, hc, -⟩ := hx.scalars
  -- the data are a dictionary, which the scalars are taken from first
  obtain ⟨data, es, rfl, hdict⟩ : ∃ data es, v = .ref data ∧
      w.heap.read data = some (.dict es) := by
    obtain ⟨es, he, -⟩ := hv
    obtain ⟨data, rfl, ⟨hr, -⟩ | ⟨_, -, -, hview⟩⟩ := cell_of_entries? he
    · exact ⟨data, es, rfl, hr⟩
    · exact absurd rfl hview
  have hd : IsData w.heap x.tree (.ref data) := ⟨hv.mono fun _ hr => hr.1, hplain⟩
  obtain ⟨ts, hts, hm⟩ := hd.match_of_dict hdict
  cases hts
  obtain ⟨g, hrun, hg, hs⟩ := loadScalars_spec (fun _ => id) hx hm
  have hcell : w.heap.cell? (.ref data) = some (.dict es) := hdict
  dsimp only
  rw [hcell]
  refine Outcome.bind (Outcome.onHeap (Outcome.of_ok hrun (Outcome.bind ?_)))
  -- loading scalars touches no section: the store still has the new ones, and the data stay
  have hfg : Fresh h₀ g SectionName.all c.map := hf.agree fun name hn =>
    hc.agree_spares hs (hf.reads name hn) (isPlain_defaultSection name)
  have hvg := hc.data_spares hs hv hplain
  have hstart : Partway g g c.map x.part SectionName.all :=
    ⟨.refl hg.sound, fun _ _ => Agree.refl _ _, fun name hn => absurd (mem_all name) hn, fun _ => id⟩
  have hincoming : ∀ {names h}, Partway g h c.map x.part names → ∀ name,
      h.Reads .plain (fun r => h.Free r ∧ ¬ h₀.Vacant r) (x.part name) (incoming h data name) :=
    fun hp => incoming_reads (hp.lasts.reads hvg)
  obtain ⟨scalar', hcg, hscalar⟩ := hg.scalars
  -- the sections are loaded one by one; those that are done have their part, the others are new
  have hsections := loadSections_outcome call (c := c) data
    (I := fun names h => names.Nodup ∧ Partway g h c.map x.part names) (F := fun _ => False)
    (fun _ _ hi => ⟨scalar', hcg.lasts hi.2.lasts⟩) ?_ ?_ SectionName.all
    (w := { w with heap := g }) ⟨by decide, hstart⟩
  · refine hsections.mono (fun _ w' hend => ?_) fun _ => id
    obtain ⟨-, hp⟩ := hend
    refine ⟨rfl, ⟨hp.lasts.sound, ⟨scalar', hcg.lasts hp.lasts, fun name hn => ?_⟩,
      fun name => ⟨(hp.done name List.not_mem_nil).mono fun _ _ => trivial, ?_⟩⟩,
      (hp.lasts.reads hvg).mono fun _ hr => hr.1, hplain⟩
    · have hkept := (hscalar name hn).lasts hp.lasts
      simp only [Contents.withScalars, if_pos hn, x.get?_scalar hn, Option.getD_some] at hkept
      exact hkept
    · exact Tree.allLeaves_deepMerge (isPlain_defaultSection name) (isPlain_part hplain name)
  · -- there is a part for every section, so none is left out
    rintro name rest h ⟨-, hp⟩ hnone
    obtain ⟨us, hus⟩ := hmaps name
    have hread := hincoming hp name
    rw [hnone, hus] at hread
    obtain ⟨entries, he, -⟩ := hread
    simp [entries?, cell?] at he
  · rintro name rest h ⟨hnodup, hp⟩
    obtain ⟨hn, hrest⟩ := List.nodup_cons.mp hnodup
    obtain ⟨us, hus⟩ := hmaps name
    obtain ⟨h', hmerge, hp'⟩ := hp.merge hn hfg hus (hincoming hp name) (isPlain_part hplain name)
    exact Outcome.of_ok hmerge ⟨hrest, hp'⟩

/-! ### The round trip -/

/-- What is written down after loading is the same as before exactly if every section keeps the keys
of its defaults. -/
theorem alike_reloaded (hd : x.tree.Distinct) :
    x.reloaded.tree.alike x.tree =
      SectionName.all.all fun name => (defaultSection name).keptIn (x.part name) := by
  have hdistinct : ∀ {name t}, x.entries.get? name = some t → t.Distinct := fun hget =>
    Tree.distinctEntries_iff.mp hd.2 _ (Entries.mem_of_get? hget)
  have hpart : ∀ name, (x.reloaded.part name).alike (x.part name) =
      (defaultSection name).keptIn (x.part name) := fun name =>
    Tree.alike_deepMerge (distinct_defaultSection name) (hdistinct (x.get?_part name))
  have hlen : (x.reloaded.entries.length == x.entries.length) = true := rfl
  rw [Contents.tree, Contents.tree, Tree.alike, hlen, Bool.true_and, Bool.eq_iff_iff,
    Tree.alikeEntries_iff, List.all_eq_true]
  -- the scalars are the same on both sides, so that it comes down to the sections
  constructor
  · intro halike name _
    obtain ⟨u, hget, hu⟩ := halike _ (Entries.mem_of_get? (x.reloaded.get?_part name))
    rw [x.get?_part name] at hget
    cases hget
    rw [← hpart name]
    exact hu
  · intro hkept p hp
    rcases List.mem_append.mp hp with hp | hp
    · obtain ⟨name, hn, rfl⟩ := List.mem_map.mp hp
      exact ⟨_, x.get?_scalar hn, Tree.alike_refl (hdistinct (x.get?_scalar hn))⟩
    · obtain ⟨name, hn, rfl⟩ := List.mem_map.mp hp
      exact ⟨_, x.get?_part name, (hpart name).trans (hkept name hn)⟩

/-- A store in a world of its own. -/
def newWorld (h : Heap) : World Unit :=
  { heap := h, current := none, log := [], constants := [], client := () }

end PageMeta.Settings
