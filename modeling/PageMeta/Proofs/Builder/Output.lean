import PageMeta.Proofs.Builder.Filing
import PageMeta.Proofs.Heap.Reworking

/-!
# What builders hand out

A builder hands out a detached copy of its buffer.  Whoever has the copy does not reach the builder, and
whoever has the builder, or anything else that was there before, does not reach the copy.

## Key results

- `toDict_handed`, `build_cases`: what is handed out is a copy of the buffer, and set apart
- `Stays.handsOut`: a builder whose buffer is as it was hands out what it handed out
- `Onward.reworked`: whatever is stored in a builder, no cell changes but its buffer
- `set_touches`: storing what is in hand is work with what is in hand
- `Handed.detached`: what was handed out and the builder are out of each other's way
-/

namespace PageMeta

namespace Heap

variable {h h' : Heap} {vs : List Value} {v : Value}

/-- What data are called, how long they are and whether they count as true depends on their cells. -/
theorem measures_agree (hp : h.Pure vs) (hm : h.Mapped vs) (hv : v.isDatum = true)
    (hheld : Held (h.Leads vs) v) (ha : Agree (h.Leads vs) h h') :
    h'.length v = h.length v ∧ h'.truth v = h.truth v := by
  rcases Value.isDatum_cases hv with hscalar | ⟨r, rfl⟩
  · cases v <;> first | (cases hscalar; done) | exact ⟨rfl, rfl⟩
  · obtain ⟨c, hc, hdatum⟩ := hp.cells r hheld.ref
    have hc' := (ha.read_eq r hheld.ref).trans hc
    have hcount : h'.cellLength? c = h.cellLength? c := by
      cases c with
      | map data =>
        -- a map is as long as the dictionary that it keeps its entries in
        obtain ⟨d, es, rfl, hd⟩ := hm r data hheld.ref hc
        have hdl := hheld.ref.step hc (List.mem_singleton_self d)
        simp only [cellLength?, dict?_of_dict hd, dict?_of_dict ((ha.read_eq d hdl).trans hd)]
      | list items | tuple items | dict entries => rfl
      | _ => cases hdatum
    have hname : h'.typeName (.ref r) = h.typeName (.ref r) := by
      simp only [typeName, className, hc, hc']
    have hlength : h'.length (.ref r) = h.length (.ref r) := by
      simp only [length, hc, hc', Option.bind_some, hcount, hname]
    exact ⟨hlength, by simp only [truth, hlength]⟩

end Heap

namespace Builder

open Heap (Extends Agree Copies SetApart Reworked Touches)
open Settings (when)

variable {κ : Type} {call : Caller κ} {w w' : World κ} {h h' h'' : Heap} {kind : BuilderKind}
  {c : Cells} {r : Ref} {hands : Ref → Prop}

/-- Where a builder stands whose buffer has nothing but data without cycles. -/
structure HoldsData (h : Heap) (kind : BuilderKind) (c : Cells) : Prop extends Intact h kind c where
  there : h.There [.ref c.builder]
  data : h.Pure [.ref c.buffer]
  unlooped : h.Unlooped [.ref c.buffer]

theorem HoldsData.extends (hb : HoldsData h kind c) (he : Extends h h') : HoldsData h' kind c where
  toIntact := hb.toIntact.of_extends he
  there := hb.there.agree (hb.there.agree_of_extends he)
  data := hb.data.extends he
  unlooped := hb.unlooped.agree (hb.data.there.agree_of_extends he)

/-! ### Handing out -/

/-- Whether a value in a later heap is what a builder hands out of its buffer. -/
structure Handed (h : Heap) (c : Cells) (r : Ref) (h' : Heap) : Prop where
  later : Extends h h'
  copies : Copies h (.ref c.buffer) h' (.ref r)
  data : h'.Pure [.ref r]
  mapped : h.Mapped [.ref c.buffer] → h'.Mapped [.ref r]
  apart : SetApart h h' (.ref r)
  same : h.Sound → h.Unlooped [.ref c.buffer] → h'.same (.ref r) (.ref c.buffer) = true

/-- Copying a buffer that has nothing but data cannot fail. -/
theorem toDict_handed (hp : Placed h kind c) (hd : h.Pure [.ref c.buffer]) :
    ∃ r h', toDict (.ref c.builder) h = .ok (.ref r) h' ∧ Handed h c r h' := by
  obtain ⟨hrun, he, hcopies, hpure, hapart⟩ := Heap.detach_copies hd
  have hgiven := (run_bind_ok (getAttribute_buffer hp)).trans hrun
  exact ⟨_, _, hgiven, he, hcopies, hpure, fun hm => hm.copy hd, hapart, fun hs hu =>
    Heap.same_copy hs hd hu⟩

/-- Whether a builder complains about nothing. -/
def Flawless (h : Heap) (kind : BuilderKind) (c : Cells) : Prop :=
  violations h (.ref c.builder) kind = .ok []

theorem validate_flawless (hf : Flawless h kind c) :
    validate kind (.ref c.builder) h = .ok (.bool true) h := by
  rw [validate_run, hf]
  rfl

theorem validate_not_flawless (hn : ¬ Flawless h kind c) :
    ∃ e, validate kind (.ref c.builder) h = .error e h := by
  rw [validate_run]
  cases hv : violations h (.ref c.builder) kind with
  | error e => exact ⟨e, rfl⟩
  | ok broken =>
    cases broken with
    | nil => exact absurd hv hn
    | cons first rest => exact ⟨_, rfl⟩

/-- A copy is a cell of the same kind. -/
theorem Handed.dict (hh : Handed h c r h') (hp : Placed h kind c) :
    ∃ entries, h'.read r = some (.dict entries) := by
  obtain ⟨entries, hread⟩ := hp.buffer
  obtain ⟨f, heq, -, hcells⟩ := hh.copies
  have hmoved := hcells c.buffer _ (Heap.leads_self _) hread
  rw [← Value.ref.inj heq] at hmoved
  exact ⟨_, hmoved⟩

/-- A builder that complains about nothing is built, and any other is not. -/
theorem build_cases (call : Caller κ) (hp : Placed w.heap kind c)
    (hd : w.heap.Pure [.ref c.buffer]) :
    (Flawless w.heap kind c ∧ ∃ r w', build call (.ref c.builder) w = .ok (.ref r) w' ∧
      Handed w.heap c r w'.heap) ∨
    ¬ Flawless w.heap kind c ∧ ∃ e, build call (.ref c.builder) w = .error e w := by
  by_cases hf : Flawless w.heap kind c
  · left
    obtain ⟨r, h', hrun, hh⟩ := toDict_handed hp hd
    obtain ⟨entries, hread⟩ := hh.dict hp
    obtain ⟨w', hbuild, rfl⟩ := build_of_toDict call hp (validate_flawless hf) hrun hread
    exact ⟨hf, r, w', hbuild, hh⟩
  · right
    obtain ⟨e, he⟩ := validate_not_flawless hf
    have hcheck := (check_eq call hp).trans (run_discard_error (run_onHeap_error he))
    exact ⟨hf, e, run_bind_error hcheck⟩

/-! ### Handing out later -/

/-- A later heap in which a builder stands where it stood, and its buffer leads to what it led to. -/
structure Stays (c : Cells) (h h' : Heap) : Prop where
  builder : h'.read c.builder = h.read c.builder
  attributes : h'.read c.attributes = h.read c.attributes
  content : Agree (h.Leads [.ref c.buffer]) h h'

namespace Stays

theorem placed (hs : Stays c h h') (hp : Placed h kind c) : Placed h' kind c := by
  obtain ⟨kept, hkept, hconfig, hpublic⟩ := hp.attributes
  obtain ⟨entries, hread⟩ := hp.buffer
  refine ⟨hs.builder.trans hp.builder, ⟨kept, hs.attributes.trans hkept, hconfig, hpublic⟩, entries, ?_⟩
  exact (hs.content.read_eq _ (Heap.leads_self _)).trans hread

theorem of_extends (he : Extends h h') (hp : Placed h kind c) (hd : h.Pure [.ref c.buffer]) :
    Stays c h h' := by
  obtain ⟨hbuilder, hattributes, -⟩ := hp.part
  exact ⟨he.read_eq _ hbuilder.2, he.read_eq _ hattributes.2, hd.there.agree_of_extends he⟩

theorem of_agree (ha : Agree (h.Leads [.ref c.builder]) h h') (hp : Placed h kind c) :
    Stays c h h' := by
  obtain ⟨hbuilder, hattributes, hbuffer⟩ := hp.part
  exact ⟨ha.read_eq _ hbuilder.1, ha.read_eq _ hattributes.1, ha.mono fun _ hr => hbuffer.1.trans hr⟩

end Stays

section Rules

variable (hp : Placed h kind c) (hd : h.Pure [.ref c.buffer]) (hm : h.Mapped [.ref c.buffer])
  (hs : Stays c h h')

include hp hd hm hs

/-- What is stored under a name is stored there later, and is as long. -/
theorem Stays.stored_eq (name : String) :
    stored h' c (Key.ofText name) = stored h c (Key.ofText name) ∧ ∀ label limit,
      lengthViolation h' label (stored h c (Key.ofText name)) limit =
        lengthViolation h label (stored h c (Key.ofText name)) limit := by
  obtain ⟨entries, hread⟩ := hp.buffer
  have hbuffer := Heap.leads_self (h := h) c.buffer
  have heq : stored h' c (Key.ofText name) = stored h c (Key.ofText name) := by
    rw [stored, stored, Heap.entriesAt_dict hread,
      Heap.entriesAt_dict ((hs.content.read_eq _ hbuffer).trans hread)]
  -- what is stored is part of the data, and what is not stored is a scalar
  have hvalue : (stored h c (Key.ofText name)).isDatum = true ∧
      Heap.Held (h.Leads [.ref c.buffer]) (stored h c (Key.ofText name)) := by
    rw [stored, Heap.entriesAt_dict hread]
    cases hget : entries.get? (Key.ofText name) with
    | none => exact ⟨rfl, Heap.held_of_addresses rfl⟩
    | some v =>
      obtain ⟨k, hmem⟩ := Entries.exists_of_get? hget
      exact ⟨hd.dict hbuffer hread _ hmem,
        (hd.there.closed.dict hbuffer hread _ hmem).2.of_live⟩
  obtain ⟨hlength, htruth⟩ := Heap.measures_agree hd hm hvalue.1 hvalue.2 hs.content
  refine ⟨heq, fun label limit => ?_⟩
  rw [lengthViolation, lengthViolation, hlength, htruth]

/-- A builder complains about nothing if it did. -/
theorem Stays.flawless_iff : Flawless h' kind c ↔ Flawless h kind c := by
  have hp' := hs.placed hp
  have hstored := fun name => (hs.stored_eq hp hd hm name).1
  have hlength := fun name => (hs.stored_eq hp hd hm name).2
  unfold Flawless
  cases kind with
  | plain | article => exact Iff.rfl
  | metaTags =>
    simp only [violations, metaTagsViolations, field, fieldAt_ok hp, fieldAt_ok hp', hstored]
    simp only [bind, Except.bind, hlength]
  | openGraph =>
    simp only [violations, openGraphViolations, missingFields_ok hp, missingFields_ok hp', hstored]
  | twitterCards =>
    -- the complaint about the kind of card quotes what is stored, but it is there or not
    simp only [violations, twitterCardsViolations, field, fieldAt_ok hp, fieldAt_ok hp', hstored]
    simp only [bind, Except.bind, hlength]
    split
    · simp
    · split
      · simp
      · simp [when, pure, Except.pure]

end Rules

/-- Whether a builder hands out, in a later world, what its buffer has in an earlier one, and building
ends as it does there. -/
structure HandsOut (call : Caller κ) (c : Cells) (w w' : World κ) : Prop where
  dict : ∃ r h', toDict (.ref c.builder) w'.heap = .ok (.ref r) h' ∧
    Copies w.heap (.ref c.buffer) h' (.ref r)
  build : match build call (.ref c.builder) w with
    | .ok _ _ => ∃ r w₁, build call (.ref c.builder) w' = .ok (.ref r) w₁ ∧
        Copies w.heap (.ref c.buffer) w₁.heap (.ref r)
    | .error _ _ => ∃ e w₁, build call (.ref c.builder) w' = .error e w₁

/-- A builder that stands where it stood, with a buffer that leads to what it led to, hands out what it
handed out. -/
theorem Stays.handsOut (call : Caller κ) (hp : Placed w.heap kind c)
    (hd : w.heap.Pure [.ref c.buffer]) (hm : w.heap.Mapped [.ref c.buffer])
    (hs : Stays c w.heap w'.heap) : HandsOut call c w w' := by
  have hp' := hs.placed hp
  have hd' := hd.agree hs.content
  obtain ⟨r, h', hrun, hh⟩ := toDict_handed hp' hd'
  refine ⟨⟨r, h', hrun, hh.copies.of_agree hs.content⟩, ?_⟩
  have hflaws := hs.flawless_iff hp hd hm
  obtain ⟨hf, r₁, w₁, hbuild, -⟩ | ⟨hn, e, hbuild⟩ := build_cases call hp hd <;> rw [hbuild]
  · obtain ⟨-, r₂, w₂, hbuild', hh'⟩ | ⟨hn, -⟩ := build_cases call hp' hd'
    · exact ⟨r₂, w₂, hbuild', hh'.copies.of_agree hs.content⟩
    · exact absurd (hflaws.mpr hf) hn
  · obtain ⟨hf, -⟩ | ⟨-, e', hbuild'⟩ := build_cases call hp' hd'
    · exact absurd (hflaws.mp hf) hn
    · exact ⟨e', _, hbuild'⟩

/-! ### Out of the way -/

/-- A heap that comes about by work on what is in hand, and by storing and merging anything at all in a
builder. -/
inductive Onward (kind : BuilderKind) (c : Cells) (hands : Ref → Prop) (h : Heap) : Heap → Prop
  | start : Onward kind c hands h h
  | work {h₁ h₂ : Heap} : Onward kind c hands h h₁ → Reworked hands h₁ h₂ → Onward kind c hands h h₂
  | set {h₁ : Heap} (key v : Value) : Onward kind c hands h h₁ → Firm h₁ kind c →
      Onward kind c hands h (stateAfter (set (.ref c.builder) key v) h₁)
  | merge {h₁ : Heap} (other : Value) : Onward kind c hands h h₁ → Firm h₁ kind c →
      Onward kind c hands h (stateAfter (merge (.ref c.builder) other) h₁)

/-- Storing changes nothing but the buffer. -/
theorem Stores.reworked (hs : Stores kind c h h') (hf : Firm h kind c) (hc : hands c.buffer) :
    Reworked hands h h' := by
  obtain ⟨entries, hread⟩ := hf.buffer
  refine hs.agree.mono fun r hr => ⟨fun heq => ?_, hr.1⟩
  obtain ⟨items, hitems⟩ := hr.2 (heq ▸ hc)
  rw [heq, hread] at hitems
  cases hitems

/-- Whoever has a builder changes nothing but what is in hand, whatever is stored in the builder. -/
theorem Onward.reworked (ho : Onward kind c hands h h') (hc : hands c.buffer) :
    Reworked hands h h' := by
  induction ho with
  | start => exact .refl _ _
  | work _ hw ih => exact ih.trans hw
  | set key v _ hf ih => exact ih.trans ((set_stores hf key v).stateAfter.reworked hf hc)
  | merge other _ hf ih => exact ih.trans ((merge_stores hf other).stateAfter.reworked hf hc)

/-- Storing in a builder what is in hand is one of the things that can be done with what is in hand. -/
theorem set_touches (hb : Intact h kind c) (hr : Heap.Ready hands h) (hc : hands c.buffer) (key : Value)
    {v : Value} (hv : Heap.Held (h.Live hands) v) :
    ∃ h', set (.ref c.builder) key v h = .ok (.ref c.builder) h' ∧ Touches hands h h' := by
  obtain ⟨k, h₁, entries, hk, -, hcells, hread, hrun⟩ :=
    putAt_run hb (Heap.text?_keyName (.atom key)) v
  have hmade : Touches hands h h₁ := .of_cells hcells
  have hread₁ := (Heap.extends_of_cells hcells).read_of_some hread
  refine ⟨_, (run_bind_ok run_get).trans hrun, hmade.trans (Heap.write_touches hc hread₁ ?_)⟩
  exact Heap.held_put ((hmade.ready hr).closed.dict hc hread₁) (Heap.heldKey_of_text? hk)
    (hv.later hmade.size_le)

/-- Whether a value that a builder has handed out and the builder are out of each other's way. -/
structure Detached (call : Caller κ) (kind : BuilderKind) (c : Cells) (w : World κ) (r : Ref)
    (w' : World κ) : Prop where
  /-- The value has what the buffer has, and is equal to it. -/
  content : Copies w.heap (.ref c.buffer) w'.heap (.ref r) ∧
    w'.heap.same (.ref r) (.ref c.buffer) = true
  /-- Whatever is done with the value, the builder hands out what it has handed out. -/
  builder : ∀ w'', Reworked (w'.heap.InHand [.ref r]) w'.heap w''.heap → HandsOut call c w w''
  /-- Whatever is done with the builder and with other values that were there, the value stays. -/
  value : ∀ vs, w.heap.There vs → ∀ h'',
    Onward kind c (w'.heap.InHand (.ref c.builder :: vs)) w'.heap h'' →
    Agree (w'.heap.Leads [.ref r]) w'.heap h''
  /-- Whatever is done with the value after the builder and other values that were there have been worked
  with, the builder hands out what it would have handed out. -/
  later : ∀ vs, w.heap.There vs → ∀ w₁, Touches (w'.heap.InHand (.ref c.builder :: vs)) w'.heap w₁.heap →
    w₁.heap.Sound → HoldsData w₁.heap kind c →
    ∀ w₂, Reworked (w₁.heap.InHand [.ref r]) w₁.heap w₂.heap → HandsOut call c w₁ w₂

/-- What a builder has handed out and the builder are out of each other's way. -/
theorem Handed.detached (call : Caller κ) (hs : w.heap.Sound) (hb : HoldsData w.heap kind c)
    (hh : Handed w.heap c r w'.heap) : Detached call kind c w r w' := by
  refine ⟨⟨hh.copies, hh.same hs hb.unlooped⟩, fun w'' hw => ?_, fun vs hvs h'' ho => ?_,
    fun vs hvs w₁ ht hs₁ hb₁ w₂ hw => ?_⟩
  · have he := hh.apart.extends hh.later hw
    exact (Stays.of_extends he hb.toPlaced hb.data).handsOut call hb.toPlaced hb.data (hs.mapped _)
  · have hbuffer : w'.heap.Leads (.ref c.builder :: vs) c.buffer :=
      (hb.of_extends hh.later).part.2.2.1.mono fun v hv => by
        rw [List.mem_singleton.mp hv]
        exact List.mem_cons_self
    exact hh.apart.kept hh.later hh.data.there (hb.there.cons hvs) (ho.reworked (.inl hbuffer))
  · have haside := hh.apart.aside hh.later hh.data.there (hb.there.cons hvs) ht
      (Heap.held_ref ⟨.inl (.held List.mem_cons_self List.mem_cons_self), hb₁.part.1.2⟩)
    refine (Stays.of_agree ?_ hb₁.toPlaced).handsOut call hb₁.toPlaced hb₁.data (hs₁.mapped _)
    exact hw.agree fun s hs => ⟨hb₁.there s hs, fun hand => hand.elim (fun hl => haside s hl hs)
      fun hge => absurd (hb₁.there s hs) (Nat.not_lt.mpr hge)⟩

end Builder

end PageMeta
