import PageMeta.Proofs.Registry.Stores
import PageMeta.Proofs.Settings.Configuring

/-!
# Two stores

Two stores that have no cell in common do not notice each other: what is loaded into one changes
nothing that belongs to the other.

## Key results

- `Beside.confined`: a store holds what it did while another is changed
- `Beside.load`: loading plain data into one of two stores
- `Beside.load_both`: loading two fragments into both, in either order
- `beside_create`: a new store shares nothing with those that are there
-/

namespace PageMeta.Settings

open Heap
open AttributeMap (Part Shows)

variable {h h' : Heap} {c c' : Cells} {scalar scalar' : String → Value}
  {part part' : SectionName → Tree String} {t : Tree String} {v : Value}
  {ts us : Entries String (Tree String)} {κ : Type} {w : World κ}

namespace Holds

/-- What a store opens and another one has as a cell of its own, is a cell of both. -/
theorem own_of_opens (hx : Holds h c scalar part) {name : SectionName} {r : Ref}
    (ho : h.Opens .stored (.ref (c'.map name)) r) (hr : Own h c r) : Own h c' r := by
  have hcontainer : ∃ cell, h.read r = some cell ∧ cell.isContainer = true := by
    rcases hr with rfl | ⟨other, -, cell, hcell, hcontainer⟩
    · exact ⟨_, hx.layout.attributes, rfl⟩
    · exact ⟨cell, hcell, hcontainer⟩
  exact .inr ⟨name, ho, hcontainer⟩

/-- The cells that make up a store, its attributes apart, are no cells of their own of another. -/
theorem not_own_store (hx : Holds h c scalar part) (hx' : Holds h c' scalar' part') {r : Ref}
    (hr : r = c'.store ∨ r = c'.sections) : ¬ Own h c r := by
  rintro (heq | ⟨name, ho, cell, hcell, hcontainer⟩)
  · have hread := hx.layout.attributes
    rw [← heq] at hread
    rcases hr with rfl | rfl
    · rw [hx'.layout.store] at hread
      cases hread
    · -- there are fewer attributes than sections
      rw [hx'.layout.sections] at hread
      have hlen := congrArg List.length (Cell.dict.inj (Option.some.inj hread))
      cases hlen
  · rcases hr with rfl | rfl
    · rw [hx'.layout.store] at hcell
      cases hcell
      cases hcontainer
    · exact not_opens_of_free hx.sound (hx.layout.map name) hx'.layout.sections
        (hx'.layout.free _ (.inr (.inr rfl))) ho

end Holds

/-- Whether two stores hold something side by side: no cell belongs to both. -/
structure Beside (h : Heap) (c c' : Cells) (scalar scalar' : String → Value)
    (part part' : SectionName → Tree String) : Prop where
  left : Holds h c scalar part
  right : Holds h c' scalar' part'
  apart : ∀ r, Own h c r → ¬ Own h c' r

namespace Beside

theorem symm (hb : Beside h c c' scalar scalar' part part') :
    Beside h c' c scalar' scalar part' part := ⟨hb.right, hb.left, fun r hr hr' => hb.apart r hr' hr⟩

/-- What one store opens is not changed with the other. -/
theorem agree (hb : Beside h c c' scalar scalar' part part') (hc : Confined c h h')
    (name : SectionName) : Agree (h.Opens .stored (.ref (c'.map name))) h h' :=
  hc.agree fun _ ho => ⟨(hb.right.reads name).opens_lt ho, fun hr =>
    hb.apart _ hr (hb.left.own_of_opens ho hr)⟩

/-- What belongs to one store belongs to it while the other is changed, and nothing else does. -/
theorem own_of_confined (hb : Beside h c c' scalar scalar' part part') (hc : Confined c h h')
    {r : Ref} (hr : Own h' c' r) : Own h c' r := by
  rcases hr with rfl | ⟨name, ho, cell, hcell, hcontainer⟩
  · exact .inl rfl
  · have hopens := hb.right.opens_of_agree (hb.agree hc name) ho
    rw [(hb.agree hc name).read_eq r hopens] at hcell
    exact .inr ⟨name, hopens, cell, hcell, hcontainer⟩

/-- A store holds what it did while another is changed. -/
theorem confined {scalar₁ : String → Value} {part₁ : SectionName → Tree String}
    (hb : Beside h c c' scalar scalar' part part') (hc : Confined c h h')
    (hx : Holds h' c scalar₁ part₁) : Beside h' c c' scalar₁ scalar' part₁ part' := by
  have hl := hb.right.layout
  have hattributes : ¬ Own h c c'.attributes := fun hr => hb.apart _ hr (.inl rfl)
  -- a change that is confined to one store writes no cell of the other
  have hkept : ∀ {r : Ref} {cell : Cell}, ¬ Own h c r → h.read r = some cell →
      h'.read r = some cell := fun {r cell} hr hread =>
    (hc.read_eq r (lt_size_of_read hread) hr).trans hread
  have hlayout : Layout h' c' scalar' := by
    refine ⟨hkept (hb.left.not_own_store hb.right (.inl rfl)) hl.store,
      hkept hattributes hl.attributes,
      hkept (hb.left.not_own_store hb.right (.inr rfl)) hl.sections, fun name => ?_, fun r hr => ?_⟩
    · obtain ⟨d, hd⟩ := read_of_isMap (hl.map name)
      exact isMap_of_read (((hb.agree hc name).read_eq _ (opens_self (own_ref_mem _))).trans hd)
    · have hfree := hl.free r hr
      have hnot : ¬ Own h c r := by
        rcases hr with rfl | rfl | rfl
        · exact hb.left.not_own_store hb.right (.inl rfl)
        · exact hattributes
        · exact hb.left.not_own_store hb.right (.inr rfl)
      obtain ⟨cell, hcell⟩ : ∃ cell, h.read r = some cell := by
        rcases hr with rfl | rfl | rfl
        · exact ⟨_, hl.store⟩
        · exact ⟨_, hl.attributes⟩
        · exact ⟨_, hl.sections⟩
      exact (hc.free r (lt_size_of_read hcell) (fun heq => hnot (.inl heq)) hfree).2
  refine ⟨hx, hb.right.of_agree hx.sound hlayout (hb.agree hc), fun r hr hr' => ?_⟩
  have hold := hb.own_of_confined hc hr'
  have hlt : r.index < h.size := by
    rcases hold with rfl | ⟨_, _, cell, hcell, -⟩
    · exact lt_size_of_read hl.attributes
    · exact lt_size_of_read hcell
  exact hc.own r hlt (fun hr => hb.apart r hr hold) hr

end Beside

/-! ### Loading into one of two stores -/

/-- Whether a value is plain data without a cell of either of two stores. -/
structure Fragment (h : Heap) (c c' : Cells) (ts : Entries String (Tree String)) (v : Value) : Prop where
  data : IsData h (.map ts) v
  apart : h.Reads .plain (fun r => ¬ Own h c r ∧ ¬ Own h c' r) (.map ts) v

namespace Fragment

theorem symm (hf : Fragment h c c' ts v) : Fragment h c' c ts v :=
  ⟨hf.data, hf.apart.mono fun _ hr => hr.symm⟩

/-- Plain data without a cell of either store stay so while one of them is changed. -/
theorem confined (hf : Fragment h c c' ts v) (hb : Beside h c c' scalar scalar' part part')
    (hc : Confined c h h') : Fragment h' c c' ts v := by
  refine ⟨hc.isData hb.left.layout hf.data, (hf.apart.allocated.agree
    (hc.agree fun _ hr => ⟨hr.2, hr.1.1⟩)).mono fun r hr => ?_⟩
  exact ⟨hc.own r hr.2 hr.1.1, fun ho => hr.1.2 (hb.own_of_confined hc ho)⟩

end Fragment

/-- Plain data that were loaded had nothing for a section but maps. -/
theorem fit_of_load {call : Caller κ} {w' : World κ} (hx : Holds w.heap c scalar part)
    (hread : w.heap.Reads .plain (fun r => ¬ Own w.heap c r) (.map ts) v)
    (hrun : load call (.ref c.store) v w = .ok (.ref c.store) w') : Fit ts := by
  obtain ⟨data, es, rfl, hdata⟩ := dict_of_reads hread
  cases hbad : firstUnfit w.heap data with
  | none => exact (firstUnfit_eq_none hx.sound hread).mp hbad
  | some bad =>
    obtain ⟨_, _, _, -, hfail, -⟩ := load_unfit call hx hdata (offer_givenApart hread) hbad
    rw [hrun] at hfail
    cases hfail

/-- Plain data with nothing for a section but maps can be loaded into one of two stores, and the other
holds what it did. -/
theorem Beside.load (call : Caller κ) (hb : Beside w.heap c c' scalar scalar' part part')
    (hf : Fragment w.heap c c' ts v) (hfit : Fit ts) :
    ∃ h' scalar₁, Settings.load call (.ref c.store) v w = .ok (.ref c.store) { w with heap := h' } ∧
      Beside h' c c' scalar₁ scalar' (loadedParts part ts) part' ∧ Confined c w.heap h' ∧
      ∀ name ∈ scalarNames, TakenFrom h' (ts.get? name) (scalar name) (scalar₁ name) := by
  obtain ⟨h', scalar₁, hrun, hx, hc, htaken⟩ :=
    hb.left.load_data call hf.data (hf.apart.mono fun _ hr => hr.1) hfit
  exact ⟨h', scalar₁, hrun, hb.confined hc hx, hc, htaken⟩

/-- A scalar after two fragments is what the second has for it, or else what the first has. -/
theorem TakenFrom.after {first second : Option (Tree String)} {x y : Value}
    (h₁ : TakenFrom h first v x) (h₂ : TakenFrom h' second x y)
    (hkeep : ∀ t, IsData h t x → IsData h' t x) : TakenFrom h' (second.or first) v y := by
  cases second with
  | some t => exact h₂
  | none =>
    cases (show y = x from h₂)
    cases first with
    | some t => exact hkeep t h₁
    | none => exact h₁

theorem TakenFrom.later {given : Option (Tree String)} {x : Value} (ht : TakenFrom h given v x)
    (hkeep : ∀ t, IsData h t x → IsData h' t x) : TakenFrom h' given v x := by
  cases given with
  | some t => exact hkeep t ht
  | none => exact ht

/-- Two fragments can be loaded into both of two stores, in either order.  Of the scalars, each store
has those that were loaded last. -/
theorem Beside.load_both (call : Caller κ) {d e : Value}
    (hb : Beside w.heap c c' scalar scalar' part part') (hd : Fragment w.heap c c' ts d)
    (he : Fragment w.heap c c' us e) (hfitd : Fit ts) (hfite : Fit us) :
    ∃ h₁ h₂ h₃ h₄ scalar₂ scalar₄,
      Settings.load call (.ref c.store) d w = .ok (.ref c.store) { w with heap := h₁ } ∧
      Settings.load call (.ref c.store) e { w with heap := h₁ } =
        .ok (.ref c.store) { w with heap := h₂ } ∧
      Settings.load call (.ref c'.store) e { w with heap := h₂ } =
        .ok (.ref c'.store) { w with heap := h₃ } ∧
      Settings.load call (.ref c'.store) d { w with heap := h₃ } =
        .ok (.ref c'.store) { w with heap := h₄ } ∧
      Beside h₄ c c' scalar₂ scalar₄ (loadedParts (loadedParts part ts) us)
        (loadedParts (loadedParts part' us) ts) ∧
      (∀ name ∈ scalarNames,
        TakenFrom h₄ ((us.get? name).or (ts.get? name)) (scalar name) (scalar₂ name) ∧
        TakenFrom h₄ ((ts.get? name).or (us.get? name)) (scalar' name) (scalar₄ name)) ∧
      ∀ r items, w.heap.read r = some (.list items) → h₄.read r = some (.list items) := by
  obtain ⟨h₁, scalar₁, hrun₁, hb₁, hc₁, ht₁⟩ := hb.load call hd hfitd
  obtain ⟨h₂, scalar₂, hrun₂, hb₂, hc₂, ht₂⟩ :=
    hb₁.load call (w := { w with heap := h₁ }) (he.confined hb hc₁) hfite
  have hd₂ := ((hd.confined hb hc₁).confined hb₁ hc₂).symm
  have he₂ := ((he.confined hb hc₁).confined hb₁ hc₂).symm
  -- now the other store
  obtain ⟨h₃, scalar₃, hrun₃, hb₃, hc₃, ht₃⟩ :=
    hb₂.symm.load call (w := { w with heap := h₂ }) he₂ hfite
  obtain ⟨h₄, scalar₄, hrun₄, hb₄, hc₄, ht₄⟩ :=
    hb₃.load call (w := { w with heap := h₃ }) (hd₂.confined hb₂.symm hc₃) hfitd
  refine ⟨h₁, h₂, h₃, h₄, scalar₂, scalar₄, hrun₁, hrun₂, hrun₃, hrun₄, hb₄.symm,
    fun name hn => ⟨?_, ?_⟩, fun r items hr =>
      hc₄.lists r items (hc₃.lists r items (hc₂.lists r items (hc₁.lists r items hr)))⟩
  · have htaken := (ht₁ name hn).after (ht₂ name hn) fun t hv => hc₂.isData hb₁.left.layout hv
    exact htaken.later fun t hv => hc₄.isData hb₃.left.layout (hc₃.isData hb₂.right.layout hv)
  · exact (ht₃ name hn).after (ht₄ name hn) fun t hv => hc₄.isData hb₃.left.layout hv

/-! ### New stores -/

/-- What belongs to a new store is made of cells that were vacant. -/
theorem own_vacant_of_create {h₀ : Heap} (hrun : Store.create h₀ = .ok (.ref c.store) h)
    (hc : Layout h c scalar) (hf : Fresh h₀ h SectionName.all c.map) {r : Ref} (hr : Own h c r) :
    h₀.Vacant r := by
  rcases hr with rfl | ⟨name, ho, -⟩
  · obtain ⟨s, heq, hmakes⟩ := create_makesStore hrun
    cases heq
    obtain ⟨d, hd, hsize⟩ := hmakes.attributes
    rw [hc.store] at hd
    cases hd
    exact vacant_of_size_le hsize
  · exact (hf.reads name (mem_all name)).within_of_opens ho

/-- A new store shares nothing with one that is there. -/
theorem beside_create (hx : Holds h c scalar part) :
    ∃ c' h' scalar', Store.create h = .ok (.ref c'.store) h' ∧ Grows .wrapped h h' ∧
      Beside h' c c' scalar scalar' part defaultSection ∧
      (∀ name ∈ scalarNames, IsData h' (defaultContents.scalar name) (scalar' name)) ∧
      ∀ r, Own h' c' r → h.Vacant r := by
  obtain ⟨c', h', hcreate, hg, hstands, hf⟩ := create_stands hx.sound
  obtain ⟨scalar', hx', hdata⟩ := hstands.holds hf
  have hvacant : ∀ r, Own h' c' r → h.Vacant r := fun r =>
    own_vacant_of_create hcreate hx'.layout hf
  exact ⟨c', h', scalar', hcreate, hg, ⟨(hx.grows hg).1, hx', fun r hr hr' =>
    hx.not_own_of_vacant hg (hvacant r hr') hr⟩, hdata, hvacant⟩

/-- Plain data that were there before two stores have no cell of either. -/
theorem fragment_of_vacant {h₀ : Heap} (hl : Lasts h₀ h) (hd : IsData h₀ (.map ts) v)
    (hc : ∀ r, Own h c r → h₀.Vacant r) (hc' : ∀ r, Own h c' r → h₀.Vacant r) :
    Fragment h c c' ts v :=
  ⟨hd.lasts hl, (hl.reads (hd.reads.occupied (by decide) hd.plain)).mono fun _ hr =>
    ⟨fun ho => hr.2 (hc _ ho), fun ho => hr.2 (hc' _ ho)⟩⟩

end PageMeta.Settings
