import PageMeta.Plain.Sequence
import PageMeta.Proofs.Builder.Blocks
import PageMeta.Proofs.Builder.Output

/-!
# What builders take over

A builder takes over what another one has collected: what a client's block has filled a new builder
with, or what is in a builder that is merged.  It stores detached copies, so whoever has the other
builder does not reach what was taken over.  What the builder held before is another matter, as it keeps
what it is given.

## Key results

- `set_takes`, `merge_takes`: storing a copy, and merging a builder
- `TakesOver.takes`: however a builder takes over what another one has
- `Takes.kept`: what was taken over is out of the way of the other builder
- `output_detached`: all that a builder hands out and takes over
- `nested_shared`: what a builder holds itself is shared
-/

namespace PageMeta.Builder

open Heap (Extends Agree AgreeBut Copies SetApart Reworked Held)

variable {κ : Type} {call : Caller κ} {w w' : World κ} {h₀ h h' h'' : Heap}
  {kind other : BuilderKind} {c d : Cells} {v u : Value} {r s : Ref} {key : Key}

/-- Whether a value is data, and shares nothing but tuples with what was there in an earlier heap. -/
structure Fresh (h₀ h : Heap) (v : Value) : Prop where
  data : h.Pure [v]
  mapped : h.Mapped [v]
  apart : SetApart h₀ h v

namespace Fresh

theorem agree (hv : Fresh h₀ h v) (ha : Agree (h.Leads [v]) h h') : Fresh h₀ h' v :=
  ⟨hv.data.agree ha, hv.mapped.agree ha, hv.apart.agree ha⟩

/-- A part of what is fresh is fresh. -/
theorem part (hu : Fresh h₀ h u) (hv : v.isDatum = true) (hheld : Held (h.Leads [u]) v) :
    Fresh h₀ h v := by
  have hleads : ∀ s, h.Leads [v] s → h.Leads [u] s := fun s hs =>
    Heap.leads_within (fun x hx => by rwa [List.mem_singleton.mp hx])
      (fun r c hr hc t ht => hr.step hc ht) hs
  exact ⟨hu.data.of_held hv hheld, fun m data hl => hu.mapped m data (hleads m hl),
    fun s hs => hu.apart s (hleads s hs)⟩

/-- A buffer that was there is no part of what is fresh. -/
theorem ne_buffer (hv : Fresh h₀ h v) (hp : Placed h₀ kind c) (hs : h.Leads [v] s) :
    s ≠ c.buffer := by
  rintro rfl
  obtain ⟨entries, hread⟩ := hp.buffer
  rcases hv.apart _ hs with hnew | ⟨items, hitems⟩
  · have hlt := Heap.lt_size_of_read hread
    omega
  · rw [hread] at hitems
    cases hitems

/-- What is fresh stays while the buffer is filled. -/
theorem later (hv : Fresh h₀ h v) (hp : Placed h₀ kind c) (ha : AgreeBut c.buffer h h') :
    Fresh h₀ h' v :=
  hv.agree (ha.mono fun _ hs => ⟨hv.ne_buffer hp hs, hv.data.there _ hs⟩)

end Fresh

/-- What a builder hands out is fresh. -/
theorem Handed.fresh (hh : Handed h c r h') (hm : h.Mapped [.ref c.buffer]) :
    Fresh h h' (.ref r) := ⟨hh.data, hh.mapped hm, hh.apart⟩

/-! ### Taking -/

/-- A later heap with an intact builder, in which no cell that was there has changed but its buffer, and
what is new in the buffer is fresh. -/
structure Takes (kind : BuilderKind) (c : Cells) (h₀ h : Heap) : Prop where
  intact : Intact h kind c
  agree : AgreeBut c.buffer h₀ h
  entries : ∀ p ∈ h.entriesAt c.buffer, p ∈ h₀.entriesAt c.buffer ∨ Fresh h₀ h p.2

theorem Takes.of_extends (hb : Intact h kind c) (he : Extends h h') : Takes kind c h h' := by
  obtain ⟨entries, hread⟩ := hb.buffer
  refine ⟨hb.of_extends he, he.agreeBut, fun p hp => .inl ?_⟩
  rwa [Heap.entriesAt_dict (he.read_of_some hread), ← Heap.entriesAt_dict hread] at hp

/-- A cell that was there and is not the buffer is as it was. -/
theorem Takes.read_of_some (ht : Takes kind c h h') {cell : Cell} (hne : s ≠ c.buffer)
    (hs : h.read s = some cell) : h'.read s = some cell :=
  (ht.agree.read_eq s ⟨hne, Heap.lt_size_of_read hs⟩).trans hs

/-- Storing what is fresh cannot fail. -/
theorem putAt_takes (hb : Intact h₀ kind c) (ht : Takes kind c h₀ h) {name : String}
    (hk : key.text? = some name) (hv : Fresh h₀ h v) :
    ∃ h', putAt (.ref c.builder) key v h = .ok (.ref c.builder) h' ∧ AgreeBut c.buffer h h' ∧
      Takes kind c h₀ h' := by
  obtain ⟨k, h₁, entries, hk', -, hcells, hread, hrun⟩ := putAt_run ht.intact hk v
  have he := Heap.extends_of_cells hcells
  have hread₁ := he.read_of_some hread
  have ha : AgreeBut c.buffer h (h₁.write c.buffer (.dict (entries.put k v))) :=
    he.agreeBut.trans ((ht.intact.of_extends he).toFirm.write _).agree
  refine ⟨_, hrun, ha, (ht.intact.of_extends he).write hread₁ hk' v, ht.agree.trans ha, ?_⟩
  intro p hp
  rw [Heap.entriesAt_dict (Heap.read_write_self _ _ _ (Heap.lt_size_of_read hread₁))] at hp
  rcases Entries.mem_put hp with ⟨heq, -⟩ | hp
  · exact .inr (heq ▸ hv.later hb.toPlaced ha)
  · rw [← Heap.entriesAt_dict hread] at hp
    exact (ht.entries p hp).imp_right fun hf => hf.later hb.toPlaced ha

theorem set_takes (hb : Intact h₀ kind c) (ht : Takes kind c h₀ h) (key : Value)
    (hv : Fresh h₀ h v) :
    ∃ h', set (.ref c.builder) key v h = .ok (.ref c.builder) h' ∧ Takes kind c h₀ h' := by
  obtain ⟨h', hrun, -, ht'⟩ := putAt_takes hb ht (Heap.text?_keyName (.atom key)) hv
  exact ⟨h', (run_bind_ok run_get).trans hrun, ht'⟩

/-- Storing the values under some keys of a fresh dictionary. -/
theorem storeKeys_takes {source : Ref} {size : Nat} (hb : Intact h₀ kind c) :
    ∀ (keys : List Key) {h : Heap}, Takes kind c h₀ h → Fresh h₀ h (.ref source) →
      (∃ es, h.read source = some (.dict es)) →
      Outcome (Heap.forEntries
        (fun key v => do discard (putAt (.ref c.builder) ((← get).keyName key) v)) source size keys)
        h (fun _ h' => Takes kind c h₀ h') fun _ => True
  | [], _, ht, _, _ => ht
  | key :: rest, h, ht, hs, hsource => by
    obtain ⟨es, hread⟩ := hsource
    have hv : Fresh h₀ h (((h.entriesAt source).get? key).getD .none) := by
      rw [Heap.entriesAt_dict hread]
      cases hget : es.get? key with
      | none => exact hs.part rfl (Heap.held_of_addresses rfl)
      | some v =>
        obtain ⟨k, hmem⟩ := Entries.exists_of_get? hget
        have hself := Heap.leads_self (h := h) source
        exact hs.part (hs.data.dict hself hread _ hmem)
          (hs.data.there.closed.dict hself hread _ hmem).2.of_live
    refine Outcome.get_bind (Outcome.bind (Outcome.get_bind (Outcome.discard ?_)))
    obtain ⟨h₁, hrun, ha, ht₁⟩ := putAt_takes hb ht (Heap.text?_keyName key) hv
    refine Outcome.of_ok hrun (Outcome.get_bind ?_)
    split
    · -- the fresh dictionary is not the buffer, so it is as it was
      have hne := hs.ne_buffer hb.toPlaced (Heap.leads_self source)
      have hread₁ := (ha.read_eq source ⟨hne, Heap.lt_size_of_read hread⟩).trans hread
      exact storeKeys_takes hb rest ht₁ (hs.later hb.toPlaced ha) ⟨es, hread₁⟩
    · trivial

/-- Merging a builder stores copies of what is in it. -/
theorem merge_takes (hb : Intact h kind c) (hd : Placed h other d) (hdata : h.Pure [.ref d.buffer])
    (hm : h.Mapped [.ref d.buffer]) :
    Outcome (merge (.ref c.builder) (.ref d.builder)) h (fun _ h' => Takes kind c h h')
      fun _ => True := by
  obtain ⟨r, h₁, hcopy, hh⟩ := toDict_handed hd hdata
  obtain ⟨es, hread⟩ := hh.dict hd
  have hsource : mergeSource (.ref d.builder) h = .ok (.ref r) h₁ := by
    simp only [mergeSource, bind, EStateM.bind, run_get, Heap.cell?, hd.builder]
    exact hcopy
  refine Outcome.bind (Outcome.of_ok hsource (Outcome.get_bind ?_))
  split
  · rename_i source hmapping
    have heq : source = r := by
      simpa [Heap.mapping?, Heap.dict?_of_dict hread] using hmapping.symm
    subst heq
    refine Outcome.bind (Outcome.bind (Outcome.ask (fun entries _ => ?_) trivial))
    exact (storeKeys_takes hb _ (.of_extends hb hh.later) (hh.fresh hm) ⟨es, hread⟩).mono
      (fun _ _ ht => ht) fun _ => id
  · trivial

/-- Whether a builder takes over what another one has, which comes to a world: by a block that has filled
the other one, or by merging it. -/
inductive TakesOver (call : Caller κ) (kind : BuilderKind) (c d : Cells) (w : World κ) :
    World κ → Prop
  | nested {name block v : Value} {w₀ w₁ w' : World κ} :
      another call (.ref c.builder) w₀ = .ok (.ref d.builder) w₁ →
      fill call (.ref d.builder) block w₁ = .ok () w →
      nested call (.ref c.builder) name block w₀ = .ok v w' → TakesOver call kind c d w w'
  | article {block b v : Value} {w₀ w₁ w' : World κ} : block ≠ .none → Placed w₀.heap kind c →
      Action.onHeap (create .article) w₀ = .ok (.ref d.builder) w₁ →
      evaluate call (.ref d.builder) block w₁ = .ok b w →
      articleField call (.ref c.builder) block w₀ = .ok v w' → TakesOver call kind c d w w'
  | merge {v : Value} {w' : World κ} :
      Action.onHeap (merge (.ref c.builder) (.ref d.builder)) w = .ok v w' →
      TakesOver call kind c d w w'

/-- Storing what another builder builds. -/
theorem store_takes (hb : Intact w.heap kind c) (hd : Placed w.heap other d)
    (hdata : w.heap.Pure [.ref d.buffer]) (hm : w.heap.Mapped [.ref d.buffer]) {key : Value}
    (hrun : storeBuilt call (.ref c.builder) key (.ref d.builder) w = .ok v w') :
    Takes kind c w.heap w'.heap := by
  obtain ⟨-, r, w₂, hbuild, hh⟩ | ⟨-, e, hbuild⟩ := build_cases call hd hdata
  · obtain ⟨h', hset, ht⟩ := set_takes hb (.of_extends hb hh.later) key (hh.fresh hm)
    have hstore : storeBuilt call (.ref c.builder) key (.ref d.builder) w =
        .ok (.ref c.builder) { w₂ with heap := h' } :=
      (run_bind_ok hbuild).trans (run_onHeap_ok hset)
    rw [hrun] at hstore
    cases hstore
    exact ht
  · have hstore : storeBuilt call (.ref c.builder) key (.ref d.builder) w = .error e w :=
      run_bind_error hbuild
    rw [hrun] at hstore
    cases hstore

/-- However a builder takes over what another one has, it stores copies. -/
theorem TakesOver.takes (ht : TakesOver call kind c d w w') (hb : Intact w.heap kind c)
    (hd : Placed w.heap other d) (hdata : w.heap.Pure [.ref d.buffer])
    (hm : w.heap.Mapped [.ref d.buffer]) : Takes kind c w.heap w'.heap := by
  -- in each form the builder is stored by the same step, once what comes before it has run
  cases ht with
  | @nested name block v w₀ w₁ w' hanother hfill hrun =>
    have hstoring := storing_ok call hb.toPlaced
    have hfinish := finish_eq call hd
    have hsteps : Builder.nested call (.ref c.builder) name block w₀ =
        storeBuilt call (.ref c.builder) name (.ref d.builder) w := by
      refine (run_bind_ok hanother).trans ((run_bind_ok hfill).trans
        ((run_bind_ok hstoring).trans ?_))
      simp only [storeBuilt, bind, EStateM.bind, hfinish]
    exact store_takes hb hd hdata hm (hsteps.symm.trans hrun)
  | @article block b v w₀ w₁ w' hne hp hcreate hblock hrun =>
    have hfield : articleField call (.ref c.builder) block = (do
        let store ← storing call (.ref c.builder)
        let child ← Action.onHeap (create .article)
        discard (evaluate call child block)
        let result ← build call child
        store (.ofText "article") result) := by
      cases block <;> first | rfl | exact absurd rfl hne
    have hsteps : articleField call (.ref c.builder) block w₀ =
        storeBuilt call (.ref c.builder) (.ofText "article") (.ref d.builder) w := by
      rw [hfield]
      exact (run_bind_ok (storing_ok call hp)).trans ((run_bind_ok hcreate).trans
        (run_bind_ok (run_discard_ok hblock)))
    exact store_takes hb hd hdata hm (hsteps.symm.trans hrun)
  | @merge v w' hrun =>
    have hmerge : Outcome (Action.onHeap (Builder.merge (.ref c.builder) (.ref d.builder)) :
        Action κ Value) w (fun _ w' => Takes kind c w.heap w'.heap) fun _ => True :=
      Outcome.onHeap (merge_takes hb hd hdata hm)
    exact hmerge.result hrun

/-! ### Out of the way -/

/-- Whether a builder and what it has taken over are out of the way of another one. -/
structure Kept (call : Caller κ) (other : BuilderKind) (c d : Cells) (w w' : World κ) : Prop where
  /-- Whatever is done with the other builder and with what it holds, what was taken over stays. -/
  taken : ∀ h'', Onward other d (w'.heap.InHand [.ref d.builder]) w'.heap h'' →
    ∀ p ∈ w'.heap.entriesAt c.buffer, p ∈ w.heap.entriesAt c.buffer ∨
      Agree (w'.heap.Leads [p.2]) w'.heap h''
  /-- The builder hands out what it has, if what it held before and still holds shares nothing but
  tuples with the other builder. -/
  builder : (∀ p ∈ w'.heap.entriesAt c.buffer, p ∈ w.heap.entriesAt c.buffer →
      w.heap.Aside [.ref d.builder] [p.2]) →
    ∀ w'', Onward other d (w'.heap.InHand [.ref d.builder]) w'.heap w''.heap → HandsOut call c w' w''

/-- Whether a builder leads to none of the cells of another. -/
def Foreign (h : Heap) (c d : Cells) : Prop :=
  ∀ s ∈ [c.builder, c.attributes, c.buffer], ¬ h.Leads [.ref d.builder] s

/-- What a value in the buffer leads to, the buffer leads to. -/
theorem HoldsData.leads_of_entry (hb : HoldsData h kind c) {p : Key × Value}
    (hp : p ∈ h.entriesAt c.buffer) (hs : h.Leads [p.2] s) : h.Leads [.ref c.buffer] s := by
  obtain ⟨es, hread⟩ := hb.buffer
  rw [Heap.entriesAt_dict hread] at hp
  refine Heap.leads_within (fun v hv => ?_) (fun _ _ hr hc _ ht => hr.step hc ht) hs
  rw [List.mem_singleton.mp hv]
  exact (hb.data.there.closed.dict (Heap.leads_self _) hread p hp).2.of_live

section Separate

variable (hb : HoldsData h kind c) (hm : h.Mapped [.ref c.buffer]) (ht : Takes kind c h h')

include hb ht in
/-- What the buffer leads to afterwards: itself, what it led to by entries that are still there, and what
is fresh. -/
theorem Takes.leads_cases (hs : h'.Leads [.ref c.buffer] s) : s = c.buffer ∨
    (∃ p ∈ h'.entriesAt c.buffer, p ∈ h.entriesAt c.buffer ∧ h.Leads [p.2] s) ∨
    ∃ p ∈ h'.entriesAt c.buffer, Fresh h h' p.2 ∧ h'.Leads [p.2] s := by
  obtain ⟨es, hread⟩ := ht.intact.buffer
  have hentries := Heap.entriesAt_dict hread
  induction hs with
  | held hv hs =>
    rw [List.mem_singleton.mp hv] at hs
    exact .inl (List.mem_singleton.mp hs)
  | @step s t cell _ hcell hmem ih =>
    by_cases heq : s = c.buffer
    · -- from the buffer on, it depends on the entry
      rw [heq, hread] at hcell
      cases hcell
      obtain ⟨p, hp, hvalue⟩ := List.mem_flatMap.mp hmem
      obtain ⟨name, hname⟩ := ht.intact.texts es hread p hp
      rw [Key.addresses_of_text? hname, List.nil_append] at hvalue
      rw [← hentries] at hp
      rcases ht.entries p hp with hpold | hfresh
      · exact .inr (.inl ⟨p, hp, hpold, .held List.mem_cons_self hvalue⟩)
      · exact .inr (.inr ⟨p, hp, hfresh, .held List.mem_cons_self hvalue⟩)
    · rcases ih with hbuffer | ⟨p, hp, hpold, hs⟩ | ⟨p, hp, hfresh, hs⟩
      · exact absurd hbuffer heq
      · -- any other cell that was there is as it was
        have hlt := hb.data.there s (hb.leads_of_entry hpold hs)
        have hcell := (ht.agree.read_eq s ⟨heq, hlt⟩).symm.trans hcell
        exact .inr (.inl ⟨p, hp, hpold, hs.step hcell hmem⟩)
      · exact .inr (.inr ⟨p, hp, hfresh, hs.step hcell hmem⟩)

include hb ht in
theorem Takes.isTuple (hs : h.IsTuple s) : h'.IsTuple s := by
  obtain ⟨entries, hread⟩ := hb.buffer
  obtain ⟨items, hitems⟩ := hs
  refine ⟨items, ht.read_of_some (fun heq => ?_) hitems⟩
  rw [heq, hread] at hitems
  cases hitems

include hb hm ht in
/-- What the buffer leads to afterwards is data, with maps over dictionaries. -/
theorem Takes.cell (hs : h'.Leads [.ref c.buffer] s) : ∃ cell, h'.read s = some cell ∧
    h'.IsDatum cell ∧ ∀ data, cell = .map data →
      ∃ d es, data = .ref d ∧ h'.read d = some (.dict es) := by
  obtain ⟨old, hold⟩ := hb.buffer
  obtain ⟨es, hread⟩ := ht.intact.buffer
  by_cases heq : s = c.buffer
  · refine ⟨.dict es, heq ▸ hread, ?_, fun data hdata => by cases hdata⟩
    intro p hp
    obtain ⟨name, hname⟩ := ht.intact.texts es hread p hp
    refine ⟨Key.stands_of_text? h' hname, ?_⟩
    rw [← Heap.entriesAt_dict hread] at hp
    rcases ht.entries p hp with hpold | hfresh
    · rw [Heap.entriesAt_dict hold] at hpold
      exact hb.data.dict (Heap.leads_self _) hold p hpold
    · exact hfresh.data.values _ List.mem_cons_self
  rcases ht.leads_cases hb hs with hbuffer | ⟨p, hp, hpold, hs⟩ | ⟨p, hp, hfresh, hs⟩
  · exact absurd hbuffer heq
  · -- it is what it was, over dictionaries that may have been filled
    have hs := hb.leads_of_entry hpold hs
    obtain ⟨cell, hcell, hdatum⟩ := hb.data.cells s hs
    refine ⟨cell, ht.read_of_some heq hcell, hdatum.imp fun t _ items hitems => ?_, ?_⟩
    · refine ht.read_of_some (fun heq => ?_) hitems
      rw [heq, hold] at hitems
      cases hitems
    · rintro data rfl
      obtain ⟨d, entries, rfl, hd⟩ := hm s data hs hcell
      by_cases hdb : d = c.buffer
      · exact ⟨d, es, rfl, hdb ▸ hread⟩
      · exact ⟨d, entries, rfl, ht.read_of_some hdb hd⟩
  · obtain ⟨cell, hcell, hdatum⟩ := hfresh.data.cells s hs
    refine ⟨cell, hcell, hdatum, ?_⟩
    rintro data rfl
    exact hfresh.mapped s data hs hcell

include hb hm ht in
theorem Takes.data : h'.Pure [.ref c.buffer] ∧ h'.Mapped [.ref c.buffer] := by
  refine ⟨⟨fun v hv => ?_, fun s hs => ?_⟩, fun m data hl hread => ?_⟩
  · rw [List.mem_singleton.mp hv]
    rfl
  · obtain ⟨cell, hcell, hdatum, -⟩ := ht.cell hb hm hs
    exact ⟨cell, hcell, hdatum⟩
  · obtain ⟨cell, hcell, -, hmap⟩ := ht.cell hb hm hl
    rw [hread] at hcell
    cases hcell
    exact hmap data rfl

end Separate

/-- What is done with another builder leaves alone what was taken over from it. -/
theorem Takes.kept (call : Caller κ) (hb : HoldsData w.heap kind c)
    (hm : w.heap.Mapped [.ref c.buffer]) (hd : HoldsData w.heap other d)
    (hforeign : Foreign w.heap c d) (ht : Takes kind c w.heap w'.heap) :
    Kept call other c d w w' := by
  obtain ⟨hbuilder, hattributes, hbuffer⟩ : (¬ w.heap.Leads [.ref d.builder] c.builder) ∧
      (¬ w.heap.Leads [.ref d.builder] c.attributes) ∧ ¬ w.heap.Leads [.ref d.builder] c.buffer := by
    simpa [Foreign] using hforeign
  -- the other builder leads to what it led to
  have hother : Agree (w.heap.Leads [.ref d.builder]) w.heap w'.heap := ht.agree.mono fun s hs =>
    ⟨fun heq => hbuffer (heq ▸ hs), hd.there s hs⟩
  have hout : ∀ s, w'.heap.InHand [.ref d.builder] s → w.heap.Leads [.ref d.builder] s ∨
      w'.heap.size ≤ s.index := fun s hs => hs.imp_left fun hl => hl.of_agree hother
  have hwork : ∀ h'', Onward other d (w'.heap.InHand [.ref d.builder]) w'.heap h'' →
      Reworked (w'.heap.InHand [.ref d.builder]) w'.heap h'' := fun h'' ho =>
    ho.reworked (.inl (hd.part.2.2.1.agree hother))
  have hfresh : ∀ p : Key × Value, Fresh w.heap w'.heap p.2 → ∀ s, w'.heap.Leads [p.2] s →
      s.index < w'.heap.size ∧ (w'.heap.InHand [.ref d.builder] s → w'.heap.IsTuple s) := by
    intro p hf s hs
    have hlt := hf.data.there s hs
    refine ⟨hlt, fun hand => ?_⟩
    rcases hf.apart s hs with hnew | htuple
    · rcases hout s hand with hl | hge
      · have hold := hd.there s hl
        omega
      · omega
    · exact ht.isTuple hb htuple
  have hown : ∀ s, ¬ w.heap.Leads [.ref d.builder] s → s.index < w'.heap.size →
      w'.heap.InHand [.ref d.builder] s → w'.heap.IsTuple s := fun s hs hlt hand =>
    (hout s hand).elim (fun hl => absurd hl hs) fun hge => absurd hlt (Nat.not_lt.mpr hge)
  refine ⟨fun h'' ho p hp => ?_, fun haside w'' ho => ?_⟩
  · rcases ht.entries p hp with hold | hf
    · exact .inl hold
    · exact .inr ((hwork h'' ho).agree (hfresh p hf))
  · obtain ⟨hpb, hpa, hpd⟩ := ht.intact.part
    have hw := hwork w''.heap ho
    have hstays : Stays c w'.heap w''.heap := by
      refine ⟨hw.read_eq _ ⟨hpb.2, hown _ hbuilder hpb.2⟩,
        hw.read_eq _ ⟨hpa.2, hown _ hattributes hpa.2⟩, hw.agree fun s hs => ?_⟩
      rcases ht.leads_cases hb hs with rfl | ⟨p, hp, hpold, hs⟩ | ⟨p, hp, hf, hs⟩
      · exact ⟨hpd.2, hown _ hbuffer hpd.2⟩
      · have hlt := Nat.lt_of_lt_of_le (hb.data.there s (hb.leads_of_entry hpold hs)) ht.agree.size_le
        by_cases hl : w.heap.Leads [.ref d.builder] s
        · exact ⟨hlt, fun _ => ht.isTuple hb (haside p hp hpold s hl hs)⟩
        · exact ⟨hlt, hown s hl hlt⟩
      · exact hfresh p hf s hs
    obtain ⟨hpure, hmapped⟩ := ht.data hb hm
    exact hstays.handsOut call ht.intact.toPlaced hpure hmapped

/-! ### All that builders hand out -/

/-- What a builder hands out, whether as its dictionary or by building, has what the buffer has at that
moment, and is out of the way of the builder and of all that was there, as these are out of its way.  What
a builder takes over from another one is out of the way of that, too. -/
theorem output_detached (call : Caller κ) (hs : w.heap.Sound) (hb : HoldsData w.heap kind c) :
    (∃ r h', toDict (.ref c.builder) w.heap = .ok (.ref r) h' ∧
      Detached call kind c w r { w with heap := h' }) ∧
    (∀ v w', build call (.ref c.builder) w = .ok v w' →
      ∃ r, v = .ref r ∧ Detached call kind c w r w') ∧
    ∀ other d w', HoldsData w.heap other d → Foreign w.heap c d → TakesOver call kind c d w w' →
      Kept call other c d w w' := by
  refine ⟨?_, fun v w' hrun => ?_, fun other d w' hd hforeign ht => ?_⟩
  · obtain ⟨r, h', hrun, hh⟩ := toDict_handed hb.toPlaced hb.data
    have hdetached : Detached call kind c w r { w with heap := h' } := Handed.detached call hs hb hh
    exact ⟨r, h', hrun, hdetached⟩
  · obtain ⟨-, r, w₁, hbuild, hh⟩ | ⟨-, e, hbuild⟩ := build_cases call hb.toPlaced hb.data
    · rw [hrun] at hbuild
      cases hbuild
      exact ⟨r, rfl, hh.detached call hs hb⟩
    · rw [hrun] at hbuild
      cases hbuild
  · have htakes := ht.takes hb.toIntact hd.toPlaced hd.data (hs.mapped _)
    exact htakes.kept call hb (hs.mapped _) hd hforeign

/-- The cells of a builder with a list that is in a pair and in an attribute map as well, and those of
another builder with a list of its own. -/
def sharingCells : List Cell :=
  [.list [.ofText "seo"], .dict (Heap.textKeys [("tags", .ref ⟨0⟩)]),
    .dict (Heap.textKeys [("_config", .ref ⟨1⟩)]),
    .list [.ofText "en"], .dict (Heap.textKeys [("locales", .ref ⟨3⟩)]), .map (.ref ⟨4⟩),
    .tuple [.ref ⟨3⟩, .ref ⟨5⟩],
    .dict (Heap.textKeys [("locales", .ref ⟨3⟩), ("pair", .ref ⟨6⟩), ("map", .ref ⟨5⟩)]),
    .dict (Heap.textKeys [("_config", .ref ⟨7⟩)]), .builder .plain ⟨2⟩, .builder .plain ⟨8⟩]

/-- The world with the two builders. -/
def sharingWorld : World Unit where
  heap := ⟨sharingCells.toArray, 0⟩
  current := none
  log := []
  constants := []
  client := ()

section Sharing

/-- What holds of all the cells holds of each. -/
theorem sharingCells_all {P : Cell → Nat → Prop} (hP : ∀ p ∈ sharingCells.zipIdx, P p.1 p.2)
    {cell : Cell} (hr : sharingWorld.heap.read r = some cell) : P cell r.index := by
  have hget : sharingCells[r.index]? = some cell := by
    simpa [Heap.read, sharingWorld] using hr
  exact hP (cell, r.index) (List.mem_zipIdx_iff_getElem?.mpr hget)

theorem sharingCells_earlier {cell : Cell} (hr : sharingWorld.heap.read r = some cell)
    (hs : s ∈ cell.addresses) : s.index < r.index :=
  sharingCells_all (P := fun cell i => ∀ s ∈ cell.addresses, s.index < i) (by decide) hr s hs

theorem sharingWorld_leads (hs : sharingWorld.heap.Leads [.ref r] s) : s.index ≤ r.index := by
  refine Heap.leads_within (P := fun s => s.index ≤ r.index) (fun v hv => ?_) ?_ hs
  · rw [List.mem_singleton.mp hv]
    exact Heap.held_ref (Nat.le_refl _)
  · intro s cell hle hread t ht
    exact Nat.le_trans (Nat.le_of_lt (sharingCells_earlier hread ht)) hle

theorem sharingWorld_map {data : Value} (hr : sharingWorld.heap.read r = some (.map data)) :
    r = ⟨5⟩ ∧ data = .ref ⟨4⟩ := by
  have hcell := sharingCells_all
    (P := fun cell i => ∀ data, cell = .map data → i = 5 ∧ data = .ref ⟨4⟩)
    (by simp [sharingCells, List.zipIdx_cons]) hr data rfl
  exact ⟨congrArg Ref.mk hcell.1, hcell.2⟩

theorem sharingWorld_within (hv : sharingWorld.heap.Within (.ref ⟨5⟩) v) :
    v = .ref ⟨5⟩ ∨ v = .ref ⟨3⟩ ∨ v = .ofText "en" := by
  induction hv with
  | self => exact .inl rfl
  | item _ hread hmem ih =>
    rcases ih with heq | heq | heq <;> cases heq <;> cases hread
    exact .inr (.inr (List.mem_singleton.mp hmem))
  | entry _ hread hd hmem ih =>
    obtain ⟨-, hdata⟩ := sharingWorld_map hread
    cases hdata
    cases hd
    rw [List.mem_singleton.mp hmem]
    exact .inr (.inl rfl)

theorem sound_sharingWorld : sharingWorld.heap.Sound := by
  have hsize : sharingWorld.heap.size = 11 := rfl
  have hdict : sharingWorld.heap.read ⟨4⟩ = some (.dict [(Key.ofText "locales", .ref ⟨3⟩)]) := rfl
  have htexts : Entries.TextKeys [(Key.ofText "locales", Value.ref ⟨3⟩)] :=
    Heap.textKeys_texts [("locales", Value.ref ⟨3⟩)]
  have hkeys : ((Key.ofText "locales" == Key.ofText "pair") = false ∧
      (Key.ofText "locales" == Key.ofText "map") = false) ∧
      (Key.ofText "pair" == Key.ofText "map") = false := by decide
  refine ⟨fun r cell hr => ?_, fun m m' d hm hm' => ?_, fun m data hm => ?_⟩
  · refine sharingCells_all (P := fun cell _ => sharingWorld.heap.FineCell cell) ?_ hr
    simp [sharingCells, List.zipIdx_cons, Heap.textKeys, Value.ofText, Heap.FineCell, Heap.Fine,
      Value.isMade, Entries.Apart, or_imp, forall_and, hsize, hdict, htexts, hkeys]
  · rw [(sharingWorld_map hm).1, (sharingWorld_map hm').1]
  · obtain ⟨rfl, -⟩ := sharingWorld_map hm
    intro r cell hr hread
    rcases sharingWorld_within hr with heq | heq | heq <;> cases heq <;> cases hread <;> rfl

/-- All but the builders themselves is data. -/
theorem data_sharingWorld (hr : r.index < 9) : sharingWorld.heap.Pure [.ref r] := by
  have hkey : ∀ name, Key.Stands sharingWorld.heap (Key.ofText name) := fun name =>
    Key.stands_of_text? _ rfl
  refine Heap.pure_of_closed (P := fun s => s.index < 9) (fun v hv => ?_) fun s hs => ?_
  · rw [List.mem_singleton.mp hv]
    exact ⟨rfl, Heap.held_ref hr⟩
  · have hlt : s.index < sharingWorld.heap.size := Nat.lt_trans hs (by decide)
    have hread : sharingWorld.heap.read s = some sharingWorld.heap.cells[s.index] :=
      Array.getElem?_eq_getElem hlt
    refine ⟨_, hread, ?_, fun t ht => Nat.lt_trans (sharingCells_earlier hread ht) hs⟩
    refine sharingCells_all (P := fun cell i => i < 9 → sharingWorld.heap.IsDatum cell) ?_ hread hs
    simp [sharingCells, List.zipIdx_cons, Heap.textKeys, Value.ofText, Heap.IsDatum, Value.isDatum,
      Value.isScalar, Value.isAtom, Value.isMade, or_imp, forall_and, hkey]

theorem holdsData_sharingWorld {entries : Entries String Value}
    (hb : sharingWorld.heap.read c.builder = some (.builder .plain c.attributes))
    (ha : sharingWorld.heap.read c.attributes =
      some (.dict (Heap.textKeys [("_config", .ref c.buffer)])))
    (hd : sharingWorld.heap.read c.buffer = some (.dict (Heap.textKeys entries)))
    (hlt : c.buffer.index < c.attributes.index ∧ c.attributes.index < 9) :
    HoldsData sharingWorld.heap .plain c := by
  have hne : c.attributes ≠ c.buffer := fun heq => by
    rw [heq] at hlt
    omega
  refine ⟨Bare.intact ⟨hb, ha, hd⟩ (Heap.textKeys_texts _) hne, fun s hs => ?_,
    data_sharingWorld (by omega), ?_⟩
  · exact Nat.lt_of_le_of_lt (sharingWorld_leads hs) (Heap.lt_size_of_read hb)
  · -- cells hold nothing but earlier ones, so none leads back to itself
    rintro r - ⟨cell, hread, s, hs, hl⟩
    have hearlier := sharingCells_earlier hread hs
    have hle := sharingWorld_leads hl
    omega

theorem foreign_sharingWorld :
    Foreign sharingWorld.heap ⟨⟨10⟩, ⟨8⟩, ⟨7⟩⟩ ⟨⟨9⟩, ⟨2⟩, ⟨1⟩⟩ := by
  have hwithin : ∀ s, sharingWorld.heap.Leads [.ref ⟨9⟩] s → s.index ≤ 2 ∨ s.index = 9 := by
    intro s hs
    refine Heap.leads_within (P := fun s => s.index ≤ 2 ∨ s.index = 9) (fun v hv => ?_) ?_ hs
    · rw [List.mem_singleton.mp hv]
      exact Heap.held_ref (.inr rfl)
    · intro t cell ht hread u hu
      exact sharingCells_all
        (P := fun cell i => i ≤ 2 ∨ i = 9 → ∀ u ∈ cell.addresses, u.index ≤ 2 ∨ u.index = 9)
        (by decide) hread ht u hu
  intro s hs hl
  simp only [List.mem_cons, List.not_mem_nil, or_false] at hs
  rcases hs with rfl | rfl | rfl <;> exact absurd (hwithin _ hl) (by decide)

end Sharing

/-- A builder with shared data hands them out, and takes over what another one has. -/
theorem output_detached_sharing :
    let call : Caller Unit := fun v _ => pure v
    let c : Cells := ⟨⟨10⟩, ⟨8⟩, ⟨7⟩⟩
    let d : Cells := ⟨⟨9⟩, ⟨2⟩, ⟨1⟩⟩
    (∃ r h', toDict (.ref c.builder) sharingWorld.heap = .ok (.ref r) h' ∧
      Detached call .plain c sharingWorld r { sharingWorld with heap := h' }) ∧
    (∃ r w', build call (.ref c.builder) sharingWorld = .ok (.ref r) w' ∧
      Detached call .plain c sharingWorld r w') ∧
    ∃ v w', Action.onHeap (merge (.ref c.builder) (.ref d.builder)) sharingWorld = .ok v w' ∧
      Kept call .plain c d sharingWorld w' := by
  intro call c d
  have hb : HoldsData sharingWorld.heap .plain c :=
    holdsData_sharingWorld rfl rfl rfl (by decide)
  have hd : HoldsData sharingWorld.heap .plain d :=
    holdsData_sharingWorld rfl rfl rfl (by decide)
  obtain ⟨hdict, hbuild, htake⟩ := output_detached call sound_sharingWorld hb
  obtain ⟨v, w', hmerge⟩ : ∃ v w', (Action.onHeap (merge (.ref c.builder) (.ref d.builder)) :
      Action Unit Value) sharingWorld = .ok v w' := ⟨_, _, rfl⟩
  refine ⟨hdict, ?_, v, w', hmerge, htake _ d w' hd foreign_sharingWorld (.merge hmerge)⟩
  obtain ⟨-, r, w₁, hrun, -⟩ | ⟨hflaw, -⟩ := build_cases call hb.toPlaced hb.data
  · obtain ⟨r', heq, hdetached⟩ := hbuild _ _ hrun
    cases heq
    exact ⟨r, w₁, hrun, hdetached⟩
  · exact absurd rfl hflaw

/-! ### What a builder keeps -/

/-- A list is stored in a builder and in the new builder that a block is given, and something is appended
to it afterwards.  Whether the first builder builds what it built before. -/
def sharedList : Action Unit Bool := do
  let list ← Action.onHeap (Heap.alloc (.list [.ofText "en"]))
  let call := answering fun child => discard (Action.onHeap (set child (.ofText "items") (.ref list)))
  let p ← Action.onHeap (create .plain)
  discard (Action.onHeap (set p (.ofText "own") (.ref list)))
  discard (nested call p (.ofText "part") (.routine 0))
  let before ← build call p
  discard (Action.onHeap (Plain.callListHere list "append" [some (.ofText "fr")]))
  let after ← build call p
  return (← get).heap.same after before

/-- A builder keeps the list itself that it was given, so what is done with the list shows in it, although
the new builder's copy is out of the way. -/
theorem nested_shared : ∃ w', sharedList { sharingWorld with heap := .empty } = .ok false w' :=
  exists_of_given? (by decide +kernel)

end PageMeta.Builder
