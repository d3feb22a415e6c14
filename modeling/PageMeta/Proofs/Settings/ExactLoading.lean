import PageMeta.Proofs.Settings.Holding
import PageMeta.Proofs.Settings.RoundTrip

/-!
# What loading does

Loading a dictionary takes over the scalars that it has, then merges the sections that it has, in a
fixed order.  If it has something for a section that is no mapping, loading stops there, and what was
done before stays done.

## Key results

- `loadScalars_spec_any`: the scalars that a dictionary has are taken over, whatever they are
- `loadSections_run`: the sections are merged up to any point in the order
- `load_exact`: what loading gives and leaves behind, whatever is loaded
-/

namespace PageMeta.Settings

open Heap
open AttributeMap (Part Shows)

variable {h h' h'' : Heap} {c : Cells} {scalar scalar' : String → Value}
  {part : SectionName → Tree String} {u : Tree String} {v x : Value} {data : Ref}
  {es : Entries Key Value} {κ : Type} {call : Caller κ} {w : World κ}

/-! ### Scalars -/

/-- Whether a value was taken over: as it is, or if it is a list, as a new list of its items. -/
def TakenOver (h h' : Heap) (v x : Value) : Prop :=
  match h.cell? v with
  | some (.list items) => ∃ r, x = .ref r ∧ h.size ≤ r.index ∧ h'.read r = some (.list items)
  | _ => x = v

/-- What was taken over is there as long as lists stay. -/
theorem TakenOver.later (ht : TakenOver h h' v x)
    (hl : ∀ r items, h'.read r = some (.list items) → h''.read r = some (.list items)) :
    TakenOver h h'' v x := by
  unfold TakenOver at ht ⊢
  split
  · rename_i items hc
    rw [hc] at ht
    obtain ⟨r, hx, hsize, hr⟩ := ht
    exact ⟨r, hx, hsize, hl r items hr⟩
  · rename_i hc
    split at ht
    · rename_i hc'; exact absurd hc' (hc _)
    · exact ht

/-- What is taken over from a later heap is so from an earlier one that has the same lists. -/
theorem TakenOver.earlier (ht : TakenOver h' h'' v x) (hsize : h.size ≤ h'.size)
    (hl : ∀ r items, v = .ref r →
      (h'.read r = some (.list items) ↔ h.read r = some (.list items))) :
    TakenOver h h'' v x := by
  have hcell : ∀ items, h'.cell? v = some (.list items) ↔ h.cell? v = some (.list items) := by
    intro items
    cases v with
    | ref r => exact hl r items rfl
    | _ => simp [cell?]
  unfold TakenOver at ht ⊢
  split
  · rename_i items hc
    rw [(hcell items).mpr hc] at ht
    obtain ⟨r, hx, hle, hr⟩ := ht
    exact ⟨r, hx, Nat.le_trans hsize hle, hr⟩
  · rename_i hc
    split at ht
    · rename_i items hc'; exact absurd ((hcell items).mp hc') (hc _)
    · exact ht

/-- A scalar that is about to be stored is taken over. -/
theorem copyScalar_takes (hs : h.Sound) (hv : h.Fine v) :
    ∃ x h', copyScalar v h = .ok x h' ∧ Grows .plain h h' ∧ h'.Fine x ∧ TakenOver h h' v x := by
  suffices houtcome : Outcome (copyScalar v) h
      (fun x h' => Grows .plain h h' ∧ h'.Fine x ∧ TakenOver h h' v x) fun _ => False from
    houtcome.exists_ok
  refine Outcome.get_bind ?_
  split
  · rename_i items hc
    obtain ⟨r, rfl, hr⟩ : ∃ r, v = .ref r ∧ h.read r = some (.list items) := by
      cases v with
      | ref r => exact ⟨r, rfl, hc⟩
      | _ => cases hc
    -- a list is taken over as a new list of the same items
    have hg : Grows .plain h (h.push (.list items)) :=
      .push_plain hs (hs.cells r _ hr) fun _ heq => by cases heq
    refine Outcome.of_ok rfl ⟨hg, ⟨rfl, fun s heq => ?_⟩, ?_⟩
    · cases heq
      exact lt_size_of_read (read_alloc_new h _)
    · rw [TakenOver, hc]
      exact ⟨h.next, rfl, Nat.le_refl _, read_alloc_new h _⟩
  · rename_i hc
    refine Outcome.pure ⟨.refl hs, hv, ?_⟩
    unfold TakenOver
    split
    · rename_i items hc'; exact absurd hc' (hc items)
    · rfl

/-- Whether of some scalars those that a dictionary has were taken over, and all others kept. -/
structure TakesScalars (h h' : Heap) (es : Entries Key Value) (names : List String)
    (scalar scalar' : String → Value) : Prop where
  taken : ∀ name ∈ names, ∀ v, es.get? (Key.ofText name) = some v →
    TakenOver h h' v (scalar' name)
  kept : ∀ name, name ∉ names ∨ es.get? (Key.ofText name) = none → scalar' name = scalar name

/-- What is changed besides the attributes of a store is no list. -/
theorem Spares.list_iff {es es' : Entries Key Value} {d : Ref} (hs : Spares d h h')
    (hd : h.read d = some (.dict es)) (hd' : h'.read d = some (.dict es')) {r : Ref}
    (hr : r.index < h.size) (items : List Value) :
    h'.read r = some (.list items) ↔ h.read r = some (.list items) := by
  by_cases heq : r = d
  · subst heq
    simp [hd, hd']
  · rw [hs.cells.read_eq r ⟨heq, hr⟩]

/-- The scalars that a dictionary has are taken over, whatever they are. -/
theorem loadScalars_spec_any : ∀ {names : List String} {h : Heap} {scalar : String → Value},
    (∀ name ∈ names, name ∈ scalarNames) → names.Nodup → h.Sound → Layout h c scalar →
    (∀ p ∈ es, h.Fine p.2) →
    ∃ h' scalar', loadScalars (.ref c.store) es names h = .ok () h' ∧ Layout h' c scalar' ∧
      Spares c.attributes h h' ∧ TakesScalars h h' es names scalar scalar'
  | [], h, scalar, _, _, hs, hc, _ =>
    ⟨h, scalar, rfl, hc, .refl hs, fun _ hn => absurd hn List.not_mem_nil, fun _ _ => rfl⟩
  | name :: rest, h, scalar, hn, hd, hs, hc, hes => by
    obtain ⟨hname, hrest⟩ := List.forall_mem_cons.mp hn
    obtain ⟨hnew, hd⟩ := List.nodup_cons.mp hd
    cases hget : es.get? (Key.ofText name) with
    | none =>
      -- the dictionary has nothing under this name
      obtain ⟨h', scalar', hrun, hc', hs', ht⟩ := loadScalars_spec_any hrest hd hs hc hes
      refine ⟨h', scalar', ?_, hc', hs', fun n hin v hv => ?_, fun n hno => ht.kept n ?_⟩
      · simpa only [loadScalars, hget, bind, EStateM.bind, pure, EStateM.pure] using hrun
      · rcases List.mem_cons.mp hin with rfl | hin
        · rw [hget] at hv; cases hv
        · exact ht.taken n hin v hv
      · exact hno.imp_left fun hno hin => hno (List.mem_cons_of_mem _ hin)
    | some v =>
      obtain ⟨k, hmem⟩ := Entries.exists_of_get? hget
      obtain ⟨x, h₁, hcopy, hg, hx, ht₁⟩ := copyScalar_takes hs (hes _ hmem)
      -- the copy makes new cells, and the write changes the attributes only
      have hc₁ := hc.keepsFree hg.keepsFree
      have hs₂ := write_spares hg.sound hc₁ hname hx
      have hassign := setAttribute_scalar (v := x) hc₁ hname
      have hc₂ := hc₁.write_scalar hs₂
      generalize h₁.write c.attributes _ = h₂ at hs₂ hassign hc₂
      have hsp : Spares c.attributes h h₂ := (Spares.of_grows hg).trans hs₂
      obtain ⟨h', scalar', hrun, hc', hs', ht⟩ := loadScalars_spec_any hrest hd hs₂.sound hc₂
        fun p hp => ⟨(hes p hp).1, fun r heq =>
          Nat.lt_of_lt_of_le ((hes p hp).2 r heq) hsp.cells.size_le⟩
      refine ⟨h', scalar', ?_, hc', hsp.trans hs', fun n hin v' hv' => ?_, fun n hno => ?_⟩
      · simp only [loadScalars, hget, bind, EStateM.bind, hcopy, hassign, hrun]
      · rcases List.mem_cons.mp hin with rfl | hin
        · rw [hget] at hv'
          cases hv'
          rw [ht.kept n (.inl hnew), Function.update_self]
          -- neither this write nor those that follow change a list, so the copy stays what it is
          have ht₂ : TakenOver h h₂ v x := ht₁.later fun r items hr =>
            (hs₂.list_iff hc₁.attributes hc₂.attributes (lt_size_of_read hr) items).mpr hr
          exact ht₂.later fun r items hr =>
            (hs'.list_iff hc₂.attributes hc'.attributes (lt_size_of_read hr) items).mpr hr
        · -- this one is taken over later, from the same lists as there were at first
          obtain ⟨k', hmem'⟩ := Entries.exists_of_get? hv'
          refine (ht.taken n hin v' hv').earlier hsp.cells.size_le fun r items heq => ?_
          exact hsp.list_iff hc.attributes hc₂.attributes ((hes _ hmem').2 r heq) items
      · have hne : n ≠ name := by
          rintro rfl
          rcases hno with hno | hno
          · exact hno List.mem_cons_self
          · rw [hget] at hno; cases hno
        rw [ht.kept n (hno.imp_left fun hno hin => hno (List.mem_cons_of_mem _ hin)),
          Function.update_of_ne hne]

/-! ### Sections -/

theorem loadSections_skip {s : Value} {name : SectionName} {rest : List SectionName}
    (hnone : incoming w.heap data name = .none) :
    loadSections call s data (name :: rest) w = loadSections call s data rest w := by
  simp only [incoming] at hnone
  simp only [loadSections, bind, EStateM.bind, run_get, hnone]

/-- A value that is not absent is merged into its section. -/
theorem loadSections_cons {name : SectionName} {rest : List SectionName}
    (hc : Layout w.heap c scalar) (hsome : incoming w.heap data name ≠ .none) :
    loadSections call (.ref c.store) data (name :: rest) w =
      match AttributeMap.merge (c.map name) (incoming w.heap data name) w.heap with
      | .ok _ h => loadSections call (.ref c.store) data rest { w with heap := h }
      | .error e h => .error e { w with heap := h } := by
  simp only [incoming] at hsome ⊢
  simp only [loadSections, bind, EStateM.bind, run_get]
  -- what the loop reads is one value, whatever the dictionary has
  generalize ((w.heap.entriesAt data).get? (Key.ofText name.name)).getD .none = v at hsome ⊢
  have hmerge : mergeInto call (.ref (c.map name)) v w =
      match AttributeMap.merge (c.map name) v w.heap with
      | .ok _ h => .ok () { w with heap := h }
      | .error e h => .error e { w with heap := h } := by
    simp only [mergeInto, bind, EStateM.bind, run_get, hc.map name, Functor.discard,
      Functor.mapConst, EStateM.map, Function.comp_apply, Action.onHeap]
    cases AttributeMap.merge (c.map name) v w.heap <;> rfl
  cases v <;> first | exact absurd rfl hsome | skip
  all_goals
    simp only [sectionNamed_ok hc name, hmerge]
    cases AttributeMap.merge (c.map name) _ w.heap <;> rfl

/-- What a dictionary has for the sections of a store: `value` as values, and the trees of those that
are mappings, which have no cell of the store. -/
structure Offers (h : Heap) (c : Cells) (data : Ref) (value : SectionName → Value)
    (tree : SectionName → Option (Tree String)) : Prop where
  incoming : ∀ name, incoming h data name = value name
  reads : ∀ name u, tree name = some u →
    u.isMap = true ∧ h.Reads .given (fun r => ¬ Own h c r) u (value name)
  apart : ∀ name u, tree name = some u → ¬ Own h c data ∧ ∃ es, h.read data = some (.dict es)

namespace Offers

variable {value : SectionName → Value} {tree : SectionName → Option (Tree String)}

/-- What was offered is offered as long as only the store changes. -/
theorem confined (ho : Offers h c data value tree) (hc : Confined c h h')
    (hsame : ∀ name, Settings.incoming h' data name = Settings.incoming h data name) :
    Offers h' c data value tree where
  incoming name := (hsame name).trans (ho.incoming name)
  reads name u hu := ⟨(ho.reads name u hu).1, hc.reads (ho.reads name u hu).2⟩
  apart name u hu := by
    obtain ⟨hown, es, hes⟩ := ho.apart name u hu
    have hlt := lt_size_of_read hes
    exact ⟨hc.own data hlt hown, es, (hc.read_eq data hlt hown).trans hes⟩

/-- If there is a mapping among what is offered, it is all offered as long as only the store
changes. -/
theorem confined_of_some (ho : Offers h c data value tree) (hc : Confined c h h')
    {name : SectionName} {u : Tree String} (hu : tree name = some u) :
    Offers h' c data value tree := by
  obtain ⟨hown, es, hes⟩ := ho.apart name u hu
  have hes' := (hc.read_eq data (lt_size_of_read hes) hown).trans hes
  refine ho.confined hc fun other => ?_
  rw [Settings.incoming, Settings.incoming, entriesAt_dict hes, entriesAt_dict hes']

end Offers

/-- The sections of a store after the trees for some of them are merged. -/
def mergedParts (merge : Tree String → Tree String → Tree String)
    (part : SectionName → Tree String) (tree : SectionName → Option (Tree String))
    (names : List SectionName) : SectionName → Tree String := fun name =>
  if name ∈ names then ((tree name).map (merge (part name))).getD (part name) else part name

/-- Merging one section, then others. -/
theorem mergedParts_cons {merge : Tree String → Tree String → Tree String}
    {tree : SectionName → Option (Tree String)} {name : SectionName}
    {rest : List SectionName} (hn : name ∉ rest) :
    mergedParts merge (Function.update part name
        (((tree name).map (merge (part name))).getD (part name))) tree rest =
      mergedParts merge part tree (name :: rest) := by
  funext other
  by_cases heq : other = name
  · subst heq
    simp [mergedParts, hn]
  · simp [mergedParts, heq]

/-- The sections for which there are mappings are merged, up to any point in the order. -/
theorem loadSections_run (call : Caller κ) {value : SectionName → Value}
    {tree : SectionName → Option (Tree String)} : ∀ {names : List SectionName} {w : World κ}
    {part : SectionName → Tree String}, names.Nodup → Holds w.heap c scalar part →
    Offers w.heap c data value tree →
    (∀ name ∈ names, value name = .none ∧ tree name = none ∨ ∃ u, tree name = some u) →
    ∃ h', (∀ rest, loadSections call (.ref c.store) data (names ++ rest) w =
        loadSections call (.ref c.store) data rest { w with heap := h' }) ∧
      Holds h' c scalar (mergedParts Tree.overlay part tree names) ∧ Offers h' c data value tree ∧
      Confined c w.heap h' ∧ ∀ name, ¬ (name ∈ names ∧ (tree name).isSome) →
        Agree (w.heap.Opens .stored (.ref (c.map name))) w.heap h'
  | [], w, part, _, hx, ho, _ =>
    ⟨w.heap, fun _ => rfl, hx, ho, .refl c w.heap, fun _ _ => Agree.refl _ _⟩
  | name :: rest, w, part, hd, hx, ho, hfit => by
    obtain ⟨hn, hd⟩ := List.nodup_cons.mp hd
    obtain ⟨hname, hrest⟩ := List.forall_mem_cons.mp hfit
    rcases hname with ⟨hnone, htree⟩ | ⟨u, hu⟩
    · obtain ⟨h', hrun, hx', ho', hc', ha'⟩ := loadSections_run call hd hx ho hrest
      have hparts := @mergedParts_cons part Tree.overlay tree name rest hn
      rw [htree, Option.map_none, Option.getD_none, Function.update_eq_self] at hparts
      refine ⟨h', fun rest' => ?_, hparts ▸ hx', ho', hc', fun other hother => ha' other ?_⟩
      · rw [List.cons_append, loadSections_skip ((ho.incoming name).trans hnone), hrun]
      · exact fun hin => hother ⟨List.mem_cons_of_mem _ hin.1, hin.2⟩
    · -- a mapping is merged into its section; the rest is offered as before, as it has no cell of the store
      obtain ⟨hmap, hread⟩ := ho.reads name u hu
      obtain ⟨h₁, hmerge, hx₁, hc₁, ha₁⟩ := hx.merge name hread hmap
      have ho₁ := ho.confined_of_some hc₁ hu
      obtain ⟨h', hrun, hx', ho', hc', ha'⟩ :=
        loadSections_run call (w := { w with heap := h₁ }) hd hx₁ ho₁ hrest
      have hsome : incoming w.heap data name ≠ .none := by
        rw [ho.incoming name]
        intro hnone
        rw [hnone] at hread
        have hmaps := hread.isMap_iff.mp hmap
        simp [entries?, cell?] at hmaps
      have hparts := @mergedParts_cons part Tree.overlay tree name rest hn
      rw [hu, Option.map_some, Option.getD_some] at hparts
      refine ⟨h', fun rest' => ?_, hparts ▸ hx', ho', hc₁.trans hc', fun other hother => ?_⟩
      · rw [List.cons_append, loadSections_cons hx.layout hsome, ho.incoming name, hmerge]
        exact hrun rest'
      · -- another section keeps its cells in this merge, and opens the same cells in the next
        have hne : other ≠ name := by
          rintro rfl
          exact hother ⟨List.mem_cons_self, by rw [hu]; rfl⟩
        have hrest' := ha' other fun hin => hother ⟨List.mem_cons_of_mem _ hin.1, hin.2⟩
        refine (ha₁ other hne).trans (hrest'.mono fun r hopen => ?_)
        exact ((hx.reads other).opened (by decide)).opens_agree (ha₁ other hne) hopen

/-! ### What is loaded -/

/-- In a sound heap a mapping is what is opened as a map. -/
theorem isMapping_iff (hs : h.Sound) : h.isMapping v = true ↔ (h.entries? .given v).isSome := by
  constructor
  · intro hm
    cases v with
    | ref r =>
      cases hr : h.read r with
      | none => simp [isMapping, mapping?, dict?, depth, dictTo, hr] at hm
      | some cell =>
        cases cell with
        | dict entries => simp [entries?, cell?, hr]
        | map d =>
          obtain ⟨d, entries, rfl, hd, -⟩ := hs.cells r _ hr
          simp [entries?, cell?, hr, hd]
        | _ => simp [isMapping, mapping?, dict?, depth, dictTo, hr] at hm
    | _ => cases hm
  · intro he
    obtain ⟨entries, he⟩ := Option.isSome_iff_exists.mp he
    obtain ⟨r, rfl, -⟩ := ref_of_entries? he
    obtain ⟨d, hd⟩ := dict?_of_entries? he
    simp [isMapping, mapping?, hd]

/-- Whether a value that is given for a section has no cell of a store; if it is a mapping, it shows
a tree. -/
def GivenApart (h : Heap) (c : Cells) (v : Value) (u : Tree String) : Prop :=
  if h.isMapping v then h.Reads .given (fun r => ¬ Own h c r) u v
  else ∀ r ∈ h.own v, ¬ Own h c r

/-- The trees of the mappings among what a dictionary has for the sections. -/
def offered (h : Heap) (data : Ref) (u : SectionName → Tree String) (name : SectionName) :
    Option (Tree String) :=
  if h.isMapping (incoming h data name) then some (u name) else none

theorem offered_eq_some {u : SectionName → Tree String} {name : SectionName} {t : Tree String}
    (ht : offered h data u name = some t) :
    h.isMapping (incoming h data name) = true ∧ t = u name := by
  unfold offered at ht
  split at ht
  · rename_i hm
    exact ⟨hm, (Option.some.inj ht).symm⟩
  · cases ht

theorem get?_section_attributes (sections : Ref) (name : SectionName) :
    (attributeEntries scalar sections).get? (Key.ofText name.name) = none := by
  cases name <;> rfl

/-- A dictionary that has a mapping for a section that has no cell of the store is not one of the
store. -/
theorem not_own_of_mapping (hx : Holds h c scalar part) (hdata : h.read data = some (.dict es))
    {name : SectionName} (hm : h.isMapping (incoming h data name) = true)
    (ho : ∀ r ∈ h.own (incoming h data name), ¬ Own h c r) : ¬ Own h c data := by
  have hincoming : incoming h data name = (es.get? (Key.ofText name.name)).getD .none := by
    rw [incoming, entriesAt_dict hdata]
  rw [hincoming] at hm ho
  -- a store owns the dictionary of its attributes, which has nothing under the name of a section, and
  -- what its sections open
  rintro (rfl | ⟨other, ⟨way, x, hat, hown⟩, -⟩)
  · rw [hx.layout.attributes] at hdata
    cases hdata
    rw [get?_section_attributes] at hm
    cases hm
  · -- the dictionary is that of a map in a section, and so is everything in it
    have hst := (hx.sound.storable_of_isMap (hx.layout.map other)).of_within (within_of_at? hat)
    obtain ⟨m, rfl, hmap⟩ := eq_map_of_own hst hown hdata
    have hentries : h.entries? .stored (.ref m) = some es := by
      simp [entries?, cell?, hmap, hdata]
    cases hget : es.get? (Key.ofText name.name) with
    | none => rw [hget] at hm; cases hm
    | some v =>
      rw [hget, Option.getD_some] at hm ho
      have hchild : h.child? .stored (.ref m) (.entry name.name) = some v := by
        rw [Heap.child?, hentries, Option.bind_some,
          get?_named (hx.sound.textKeys hentries) (show (Key.ofText name.name).text? = _ from rfl),
          hget]
      have hat' : h.at? .stored (.ref (c.map other)) (way ++ [.entry name.name]) = some v := by
        rw [at?_append, hat, Option.bind_some, at?_singleton, hchild]
      obtain ⟨entries, he⟩ := Option.isSome_iff_exists.mp ((isMapping_iff hx.sound).mp hm)
      obtain ⟨r, rfl, hcell⟩ := cell_of_entries? he
      have hcontainer : ∃ cell, h.read r = some cell ∧ cell.isContainer = true := by
        rcases hcell with ⟨hr, -⟩ | ⟨d, hr, -⟩
        · exact ⟨_, hr, rfl⟩
        · exact ⟨_, hr, rfl⟩
      exact ho r (own_ref_mem r) (.inr ⟨other, ⟨_, _, hat', own_ref_mem r⟩, hcontainer⟩)

/-- What is given for the sections, none of it with a cell of the store, is offered to it. -/
theorem offers_of_given {u : SectionName → Tree String} (hx : Holds h c scalar part)
    (hdata : h.read data = some (.dict es))
    (hgiven : ∀ name, GivenApart h c (incoming h data name) (u name)) :
    Offers h c data (incoming h data) (offered h data u) := by
  have hread : ∀ name, h.isMapping (incoming h data name) = true →
      h.Reads .given (fun r => ¬ Own h c r) (u name) (incoming h data name) := fun name hm => by
    have hg := hgiven name
    rwa [GivenApart, if_pos hm] at hg
  refine ⟨fun _ => rfl, fun name t ht => ?_, fun name t ht => ?_⟩
  · obtain ⟨hm, rfl⟩ := offered_eq_some ht
    exact ⟨(hread name hm).isMap_iff.mpr ((isMapping_iff hx.sound).mp hm), hread name hm⟩
  · obtain ⟨hm, -⟩ := offered_eq_some ht
    exact ⟨not_own_of_mapping hx hdata hm (hread name hm).own_within, es, hdata⟩

/-- While scalars are taken over, a dictionary keeps what it has for the sections. -/
theorem incoming_spares (hc : Layout h c scalar) (hc' : Layout h' c scalar')
    (hs : Spares c.attributes h h') (hdata : h.read data = some (.dict es)) (name : SectionName) :
    incoming h' data name = incoming h data name := by
  by_cases heq : data = c.attributes
  · subst heq
    rw [incoming, incoming, entriesAt_dict hc.attributes, entriesAt_dict hc'.attributes,
      get?_section_attributes, get?_section_attributes]
  · have hdata' := (hs.cells.read_eq data ⟨heq, lt_size_of_read hdata⟩).trans hdata
    rw [incoming, incoming, entriesAt_dict hdata, entriesAt_dict hdata']

/-! ### Loading -/

/-- What loading the sections `names` from a dictionary leaves behind: the scalars that the dictionary
has are taken over, the sections that it has are merged, and nothing else has changed. -/
structure Loaded (merge : Tree String → Tree String → Tree String) (h : Heap) (c : Cells)
    (scalar : String → Value) (part : SectionName → Tree String) (data : Ref)
    (u : SectionName → Tree String) (names : List SectionName) (h' : Heap) : Prop where
  holds : ∃ scalar', Holds h' c scalar' (mergedParts merge part (offered h data u) names) ∧
    TakesScalars h h' (h.entriesAt data) scalarNames scalar scalar'
  kept : ∀ name, ¬ (name ∈ names ∧ h.isMapping (incoming h data name) = true) →
    Agree (h.Opens .stored (.ref (c.map name))) h h'
  confined : Confined c h h'

/-- Loading takes over the scalars and merges sections up to any point in the order. -/
theorem load_run (call : Caller κ) {u : SectionName → Tree String} (hx : Holds w.heap c scalar part)
    (hdata : w.heap.read data = some (.dict es))
    (hgiven : ∀ name, GivenApart w.heap c (incoming w.heap data name) (u name))
    {names rest : List SectionName} (hall : SectionName.all = names ++ rest)
    (hfit : ∀ name ∈ names, incoming w.heap data name = .none ∨
      w.heap.isMapping (incoming w.heap data name) = true) :
    ∃ h', load call (.ref c.store) (.ref data) w =
        (loadSections call (.ref c.store) data rest >>= fun _ => pure (.ref c.store))
          { w with heap := h' } ∧
      Loaded Tree.overlay w.heap c scalar part data u names h' ∧
      Offers h' c data (incoming w.heap data) (offered w.heap data u) := by
  have hnames : names.Nodup := by
    have hnodup : SectionName.all.Nodup := by decide
    rw [hall] at hnodup
    exact (List.nodup_append.mp hnodup).1
  -- first the scalars, which changes the attributes only, then the sections
  have hfine := (hx.sound.cells data _ hdata).2
  obtain ⟨h₁, scalar', hscalars, hc₁, hs₁, ht⟩ :=
    loadScalars_spec_any (fun _ => id) (by decide) hx.sound hx.layout hfine
  obtain ⟨hx₁, hconf₁, ha₁⟩ := hx.spares hs₁ hc₁
  have ho₁ := (offers_of_given hx hdata hgiven).confined hconf₁
    (incoming_spares hx.layout hc₁ hs₁ hdata)
  obtain ⟨h', hrun, hx', ho', hconf', ha'⟩ := loadSections_run call
    (w := { w with heap := h₁ }) hnames hx₁ ho₁ fun name hn => by
      by_cases hm : w.heap.isMapping (incoming w.heap data name) = true
      · exact .inr ⟨u name, by rw [offered, if_pos hm]⟩
      · exact .inl ⟨(hfit name hn).resolve_right hm, by rw [offered, if_neg hm]⟩
  refine ⟨h', ?_, ⟨⟨scalar', hx', ?_⟩, fun name hn => ?_, hconf₁.trans hconf'⟩, ho'⟩
  · have hcell : w.heap.cell? (.ref data) = some (.dict es) := hdata
    simp only [load, bind, EStateM.bind, run_get, hcell, Action.onHeap, hscalars, hall, hrun]
  · rw [entriesAt_dict hdata]
    exact ⟨fun name hn v hv => (ht.taken name hn v hv).later hconf'.lists, ht.kept⟩
  · have hkept := ha' name fun hin => hn ⟨hin.1, by
      obtain ⟨t, ht⟩ := Option.isSome_iff_exists.mp hin.2
      exact (offered_eq_some ht).1⟩
    refine (ha₁ name).trans (hkept.mono fun r ho => ?_)
    exact ((hx.reads name).opened (by decide)).opens_agree (ha₁ name) ho

/-- The section for which a dictionary first has something that is neither absent nor a mapping. -/
def firstUnfit (h : Heap) (data : Ref) : Option SectionName :=
  SectionName.all.find? fun name =>
    !(incoming h data name).isNone && !h.isMapping (incoming h data name)

theorem isNone_iff : v.isNone = true ↔ v = .none := by
  cases v <;> simp [Value.isNone]

/-- What is fit for a section is absent or a mapping. -/
theorem fit_iff {name : SectionName} :
    (!(incoming h data name).isNone && !h.isMapping (incoming h data name)) = false ↔
      incoming h data name = .none ∨ h.isMapping (incoming h data name) = true := by
  rw [Bool.and_eq_false_iff, Bool.not_eq_false', Bool.not_eq_false', isNone_iff]

/-- If everything is fit, loading succeeds. -/
theorem load_fit (call : Caller κ) {u : SectionName → Tree String} (hx : Holds w.heap c scalar part)
    (hdata : w.heap.read data = some (.dict es))
    (hgiven : ∀ name, GivenApart w.heap c (incoming w.heap data name) (u name))
    (hfit : firstUnfit w.heap data = none) :
    ∃ h', load call (.ref c.store) (.ref data) w = .ok (.ref c.store) { w with heap := h' } ∧
      Loaded Tree.overlay w.heap c scalar part data u SectionName.all h' ∧
      Offers h' c data (incoming w.heap data) (offered w.heap data u) := by
  refine load_run call hx hdata hgiven (List.append_nil _).symm fun name hn => ?_
  exact fit_iff.mp (Bool.eq_false_iff.mpr fun hunfit => List.find?_eq_none.mp hfit name hn hunfit)

theorem own_lt_of_fine (hs : h.Sound) (hv : h.Fine v) : ∀ r ∈ h.own v, r.index < h.size := by
  intro r hr
  rcases mem_own_iff.mp hr with heq | ⟨m, -, hm⟩
  · exact hv.2 r heq
  · obtain ⟨d, es, heq, hd, -⟩ := hs.cells m _ hm
    cases heq
    exact lt_size_of_read hd

theorem fine_incoming (hs : h.Sound) (data : Ref) (name : SectionName) :
    h.Fine (incoming h data name) := by
  rw [incoming]
  cases hget : (h.entriesAt data).get? (Key.ofText name.name) with
  | none => exact ⟨rfl, fun r heq => by cases heq⟩
  | some v =>
    obtain ⟨k, hmem⟩ := Entries.exists_of_get? hget
    exact AttributeMap.fine_entriesAt hs data _ hmem

/-- A value that has no cell of a store keeps its type, and whether it is a mapping. -/
theorem typeName_confined (hs : h.Sound) (hs' : h'.Sound) (hv : h.Fine v)
    (ho : ∀ r ∈ h.own v, ¬ Own h c r) (hc : Confined c h h') :
    h'.typeName v = h.typeName v ∧ h'.isMapping v = h.isMapping v := by
  have hagree : Agree (· ∈ h.own v) h h' :=
    hc.agree fun r hr => ⟨own_lt_of_fine hs hv r hr, ho r hr⟩
  constructor
  · cases v with
    | ref r => simp only [typeName, className, hagree.read_eq r (own_ref_mem r)]
    | _ => rfl
  · rw [Bool.eq_iff_iff, isMapping_iff hs, isMapping_iff hs', entries?_agree hagree fun _ hr => hr]

/-- If something is unfit, loading stops there. -/
theorem load_unfit (call : Caller κ) {u : SectionName → Tree String} {bad : SectionName}
    (hx : Holds w.heap c scalar part) (hdata : w.heap.read data = some (.dict es))
    (hgiven : ∀ name, GivenApart w.heap c (incoming w.heap data name) (u name))
    (hbad : firstUnfit w.heap data = some bad) :
    ∃ before after h', SectionName.all = before ++ bad :: after ∧
      load call (.ref c.store) (.ref data) w =
        .error (.cannotMerge (w.heap.typeName (incoming w.heap data bad))) { w with heap := h' } ∧
      Loaded Tree.overlay w.heap c scalar part data u before h' := by
  obtain ⟨hunfit, before, after, hall, hbefore⟩ := List.find?_eq_some_iff_append.mp hbad
  obtain ⟨h', hrun, hloaded, ho⟩ := load_run call hx hdata hgiven hall fun name hn =>
    fit_iff.mp ((Bool.not_eq_true' _).mp (hbefore name hn))
  refine ⟨before, after, h', hall, ?_, hloaded⟩
  simp only [Bool.and_eq_true, Bool.not_eq_true'] at hunfit
  have hg := hgiven bad
  rw [GivenApart, if_neg (by rw [hunfit.2]; exact Bool.false_ne_true)] at hg
  have hfine := fine_incoming hx.sound data bad
  obtain ⟨scalar', hx', -⟩ := hloaded.holds
  obtain ⟨htype, hmapping⟩ := typeName_confined hx.sound hx'.sound hfine hg hloaded.confined
  have hsome : incoming h' data bad ≠ .none := by
    rw [ho.incoming bad]
    intro hnone
    rw [hnone] at hunfit
    cases hunfit.1
  -- what is unfit is refused before anything is merged, and its type has not changed meanwhile
  have hmerge : AttributeMap.merge (c.map bad) (incoming h' data bad) h' =
      .error (.cannotMerge (w.heap.typeName (incoming w.heap data bad))) h' := by
    rw [ho.incoming bad]
    rw [hunfit.2, isMapping, Option.isSome_eq_false_iff, Option.isNone_iff_eq_none] at hmapping
    simp only [AttributeMap.merge, bind, EStateM.bind, run_get, hmapping, ← htype]
    rfl
  rw [hrun]
  simp only [bind, EStateM.bind,
    loadSections_cons (w := { w with heap := h' }) hx'.layout hsome, hmerge]

/-- If no two keys of a level have the same text, loading is deep merging. -/
theorem Loaded.of_distinct {u : SectionName → Tree String} {names : List SectionName}
    (hx : Holds h c scalar part) (hu : ∀ name, (u name).Distinct)
    (hl : Loaded Tree.overlay h c scalar part data u names h') :
    Loaded Tree.deepMerge h c scalar part data u names h' := by
  have hparts : mergedParts Tree.overlay part (offered h data u) names =
      mergedParts Tree.deepMerge part (offered h data u) names := by
    funext name
    -- the two ways of merging differ only where keys of one level become one text
    have hmerge : (part name).overlay (u name) = (part name).deepMerge (u name) :=
      Tree.overlay_of_distinct ((hx.reads name).distinct (by decide)) (hu name)
    unfold mergedParts offered
    split
    · split
      · rw [Option.map_some, Option.map_some, hmerge]
      · rfl
    · rfl
  exact ⟨hparts ▸ hl.holds, hl.kept, hl.confined⟩

/-- What is no dictionary is refused. -/
theorem load_refuses {s : Value}
    (hno : ∀ data es, v = .ref data → w.heap.read data ≠ some (.dict es)) :
    load call s v w = .error (.settingsNotMapping (w.heap.typeName v)) w := by
  simp only [load, bind, EStateM.bind, run_get]
  have hcell : ∀ data es, v = .ref data → w.heap.cell? v = some (.dict es) → False := by
    rintro data es rfl hc
    exact hno data es rfl hc
  generalize w.heap.cell? v = cell at hcell
  split
  · exact (hcell _ _ rfl rfl).elim
  · rfl

/-! ### Plain data -/

/-- What shows a tree and has no cell of a store can be given for a section. -/
theorem givenApart_of_reads {view : View} {t : Tree String}
    (hr : h.Reads view (fun r => ¬ Own h c r) t v) : GivenApart h c v t := by
  unfold GivenApart
  split
  · exact hr.given
  · exact hr.own_within

/-- What plain data without a cell of a store have for its sections can be given. -/
theorem offer_givenApart {ts : Entries String (Tree String)}
    (hr : h.Reads .plain (fun r => ¬ Own h c r) (.map ts) (.ref data)) (name : SectionName) :
    GivenApart h c (incoming h data name) (offer ts name) :=
  givenApart_of_reads (offer_reads hr name)

theorem distinct_offer {ts : Entries String (Tree String)} (hd : (Tree.map ts).Distinct)
    (name : SectionName) : (offer ts name).Distinct := by
  unfold offer
  cases hget : ts.get? name.name with
  | none => trivial
  | some t => exact Tree.distinctEntries_iff.mp hd.2 _ (Entries.mem_of_get? hget)

theorem isMapping_of_reads {view : View} {within : Ref → Prop} {t : Tree String} (hs : h.Sound)
    (hr : h.Reads view within t v) : h.isMapping v = t.isMap := by
  rw [Bool.eq_iff_iff, isMapping_iff hs, hr.given.isMap_iff]

/-- Which section plain data are unfit for can be told from what they show. -/
theorem firstUnfit_eq {within : Ref → Prop} {ts : Entries String (Tree String)} (hs : h.Sound)
    (hr : h.Reads .plain within (.map ts) (.ref data)) : firstUnfit h data =
      SectionName.all.find? fun name => !(offer ts name).isAbsent && !(offer ts name).isMap := by
  unfold firstUnfit
  congr 1
  funext name
  rw [(offer_reads hr name).isNone_eq, isMapping_of_reads hs (offer_reads hr name)]

/-- What shows a map as plain data is a dictionary. -/
theorem dict_of_reads {within : Ref → Prop} {ts : Entries String (Tree String)}
    (hr : h.Reads .plain within (.map ts) v) :
    ∃ data es, v = .ref data ∧ h.read data = some (.dict es) := by
  obtain ⟨es, he, -⟩ := hr
  obtain ⟨data, rfl, ⟨hdata, -⟩ | ⟨_, -, -, hview⟩⟩ := cell_of_entries? he
  · exact ⟨data, es, rfl, hdata⟩
  · exact absurd rfl hview

/-- A new store beside plain data that were there before. -/
theorem create_beside {ts : Entries String (Tree String)} (hs : h.Sound)
    (hd : IsData h (.map ts) (.ref data)) :
    ∃ c g scalar, Store.create h = .ok (.ref c.store) g ∧ Holds g c scalar defaultSection ∧
      g.Reads .plain (fun r => ¬ Own g c r) (.map ts) (.ref data) := by
  obtain ⟨c, g, hcreate, hg, hx, hf⟩ := create_stands hs
  obtain ⟨scalar, hx, -⟩ := hx.holds hf
  exact ⟨c, g, scalar, hcreate, hx, (hf.reads_apart hx.layout hg.lasts hd).mono fun _ hr => hr.2⟩

/-- Plain data in a heap of their own. -/
theorem build_settings {ts : Entries String (Tree String)} (hp : (Tree.map ts).isPlain = true)
    (hd : (Tree.map ts).Distinct) : ∃ data h, buildText .plain (.map ts) .empty = .ok (.ref data) h ∧
      h.Sound ∧ IsData h (.map ts) (.ref data) := by
  obtain ⟨v, h, hbuild, hg, hdata⟩ := build_data AttributeMap.sound_empty
    (Tree.named_mapKeys (fun _ => isLeaf_of_isPlain) hp) hd hp
  obtain ⟨data, es, rfl, -⟩ := dict_of_reads hdata.reads
  exact ⟨data, h, hbuild, hg.sound, hdata⟩

/-! ### Exactly -/

/-- Settings with a number for the images. -/
def unfitSettings : Entries String (Tree String) :=
  [("site_name", text "Shop"), ("robots", .map [("enabled", flag false)]), ("images", number 7)]

end PageMeta.Settings
