import PageMeta.Proofs.Heap.Pure

/-!
# What is made of data

A cell that is made of data holds data, and a cell that is written with data keeps data what was data
before.  So copies of data are data, and nothing that is done with data makes data anything else.

## Key results

- `pure_push`, `dataKept_write`: new cells, and cells that are written
- `wrap_data`: copies into attribute maps
-/

namespace PageMeta.Heap

variable {h h' : Heap} {vs : List Value} {v : Value} {r : Ref} {c : Cell}

/-- Whether what stands at an address is data. -/
def DataAt (h : Heap) (r : Ref) : Prop := h.Pure [.ref r]

/-- Whether all that was data still is. -/
def DataKept (h h' : Heap) : Prop := ∀ r, h.DataAt r → h'.DataAt r

theorem DataKept.trans {h'' : Heap} (h₁ : DataKept h h') (h₂ : DataKept h' h'') : DataKept h h'' :=
  fun r hr => h₂ r (h₁ r hr)

/-- Values are data if the addresses that they hold are among some that hold nothing but data and
addresses among them. -/
theorem pure_of_closed {P : Ref → Prop} (hv : ∀ v ∈ vs, v.isDatum = true ∧ Held P v)
    (hP : ∀ r, P r → ∃ c, h.read r = some c ∧ h.IsDatum c ∧ HeldCell P c) : h.Pure vs := by
  have hin : ∀ r, h.Leads vs r → P r := fun r hr => by
    induction hr with
    | held hmem hr => exact (hv _ hmem).2 _ hr
    | step _ hc hs ih =>
      obtain ⟨c, hc', -, hheld⟩ := hP _ ih
      rw [hc] at hc'
      cases hc'
      exact hheld _ hs
  exact ⟨fun v hmem => (hv v hmem).1, fun r hr => by
    obtain ⟨c, hc, hdatum, -⟩ := hP r (hin r hr)
    exact ⟨c, hc, hdatum⟩⟩

/-- A cell among data holds data. -/
theorem DataAt.cell (hr : h.DataAt r) :
    ∃ c, h.read r = some c ∧ h.IsDatum c ∧ HeldCell h.DataAt c := by
  obtain ⟨c, hc, hdatum⟩ := hr.cells r (leads_self r)
  exact ⟨c, hc, hdatum, fun s hs => hr.of_leads ((leads_self r).step hc hs)⟩

/-- What data hold is data. -/
theorem Pure.of_held (hp : h.Pure vs) (hv : v.isDatum = true) (hheld : Held (h.Leads vs) v) :
    h.Pure [v] :=
  pure_of_closed (P := h.DataAt) (fun w hw => by
    rw [List.mem_singleton.mp hw]
    exact ⟨hv, hheld.mono fun _ => hp.of_leads⟩) fun _ => DataAt.cell

/-- Values are data if they are scalars, or stand where data stand. -/
theorem pure_iff : h.Pure vs ↔ ∀ v ∈ vs, v.isDatum = true ∧ Held h.DataAt v :=
  ⟨fun hp v hv => ⟨hp.values v hv, fun _ hr => hp.of_leads (.held hv hr)⟩,
    fun hv => pure_of_closed hv fun _ => DataAt.cell⟩

theorem pure_singleton : h.Pure [v] ↔ v.isDatum = true ∧ Held h.DataAt v := by
  rw [pure_iff, List.forall_mem_singleton]

theorem Pure.later (hp : h.Pure vs) (hk : DataKept h h') : h'.Pure vs :=
  pure_iff.mpr fun v hv => ((pure_iff.mp hp) v hv).imp_right fun hheld => hheld.mono hk

theorem Pure.extends (hp : h.Pure vs) (he : Extends h h') : h'.Pure vs :=
  hp.agree (hp.there.agree_of_extends he)

theorem dataKept_of_extends (he : Extends h h') : DataKept h h' := fun _ hr => hr.extends he

/-- A new cell that is made of data. -/
theorem pure_push (hc : h.IsDatum c) (hheld : HeldCell h.DataAt c) :
    (h.push c).Pure [.ref h.next] := by
  have he : Extends h (h.push c) := ⟨by simp, fun r hr => read_alloc_old h c r hr⟩
  have hk : DataKept h (h.push c) := dataKept_of_extends he
  refine pure_of_closed (P := fun s => (h.push c).DataAt s ∨ s = h.next) (fun v hv => ?_) ?_
  · rw [List.mem_singleton.mp hv]
    exact ⟨rfl, held_ref (.inr rfl)⟩
  · rintro s (hs | rfl)
    · obtain ⟨c', hc', hdatum, hheld'⟩ := hs.cell
      exact ⟨c', hc', hdatum, hheld'.mono fun _ => .inl⟩
    · exact ⟨c, read_alloc_new h c, hc.imp fun _ _ _ hr => he.read_of_some hr,
        hheld.mono fun s hs => .inl (hk s hs)⟩

/-- Writing data into a cell that is no tuple, as far as the cell is one of data. -/
theorem dataKept_write (hn : ¬ h.IsTuple r) (hc : h.DataAt r → h.IsDatum c ∧ HeldCell h.DataAt c) :
    DataKept h (h.write r c) := fun s hs => by
  have htuples : ∀ s items, h.read s = some (.tuple items) →
      (h.write r c).read s = some (.tuple items) := fun s items hs =>
    (read_write_of_ne h r s c fun heq => hn ⟨items, heq ▸ hs⟩).trans hs
  refine pure_of_closed (P := h.DataAt) (fun v hv => ?_) fun t ht => ?_
  · rw [List.mem_singleton.mp hv]
    exact ⟨rfl, held_ref hs⟩
  · by_cases heq : r = t
    · subst heq
      obtain ⟨hdatum, hheld⟩ := hc ht
      exact ⟨c, read_write_self h r c (ht.there r (leads_self r)),
        hdatum.imp fun s _ => htuples s, hheld⟩
    · obtain ⟨c', hc', hdatum, hheld⟩ := ht.cell
      exact ⟨c', (read_write_of_ne h r t c heq).trans hc', hdatum.imp fun s _ => htuples s, hheld⟩

/-! ### Copies -/

/-- A dictionary of data under texts. -/
theorem dict_data {es : Entries Key Value} (hkeys : es.TextKeys) (hes : ∀ p ∈ es, h.Pure [p.2]) :
    h.IsDatum (.dict es) ∧ HeldCell h.DataAt (.dict es) := by
  refine ⟨fun p hp => ?_, heldCell_dict.mpr fun p hp => ?_⟩
  · obtain ⟨_, hk⟩ := hkeys p hp
    exact ⟨Key.stands_of_text? h hk, (pure_singleton.mp (hes p hp)).1⟩
  · obtain ⟨_, hk⟩ := hkeys p hp
    exact ⟨heldKey_of_text? hk, (pure_singleton.mp (hes p hp)).2⟩

theorem make_data (building : Building) {es : Entries Key Value} (hkeys : es.TextKeys)
    (hes : ∀ p ∈ es, h.Pure [p.2]) :
    Outcome (building.make es) h (fun w h' => Extends h h' ∧ h'.Pure [w]) fun _ => False := by
  have he : ∀ (h : Heap) (c : Cell), Extends h (h.push c) := fun h c =>
    ⟨by simp, fun r hr => read_alloc_old h c r hr⟩
  obtain ⟨hdatum, hheld⟩ := dict_data hkeys hes
  have hdict := pure_push hdatum hheld
  cases building with
  | plain => exact ⟨he h _, hdict⟩
  | wrapped => exact ⟨(he h _).trans (he _ _), pure_push rfl (held_ref hdict)⟩

/-- What is made of data is data. -/
theorem making_data (building : Building) :
    Making building Extends (fun h v => h.Pure [v]) fun _ => True where
  refl := .refl _ _
  trans := .trans
  stays _ := id
  later he hv := hv.extends he
  cells := extends_of_cells
  settle hv := by
    rw [settle_of_isMade (Value.isMade_of_isDatum (pure_singleton.mp hv).1)]
    exact ⟨.refl _ _, hv⟩
  list {h vs} _ hvs := by
    refine ⟨⟨by simp, fun r hr => read_alloc_old h _ r hr⟩, pure_push ?_ ?_⟩
    · exact fun v hv => (pure_singleton.mp (hvs v hv)).1
    · exact heldCell_list.mpr fun v hv => (pure_singleton.mp (hvs v hv)).2
  make _ hkeys _ hes := make_data building hkeys hes

/-- A copy of data into an attribute map is data. -/
theorem wrap_data (hs : h.Sound) (hv : h.Pure [v]) :
    Outcome (wrap v) h (fun w h' => Extends h h' ∧ h'.Pure [w]) (Extends h) := by
  refine Outcome.bind (Outcome.ask (fun u hu => ?_) (.refl _ _))
  obtain ⟨t, ht⟩ := treeTo_supplied hs (hv.supply hs) _
    ⟨hv.values v List.mem_cons_self, (hv.there.held List.mem_cons_self).of_live⟩ hu
  refine ((making_data .wrapped).build_outcome trivial (ht.imp fun hscalar => ?_)).mono
    (fun _ _ => id) fun _ => False.elim
  exact pure_singleton.mpr ⟨Value.isDatum_of_isScalar hscalar, held_of_isScalar hscalar⟩

end PageMeta.Heap
