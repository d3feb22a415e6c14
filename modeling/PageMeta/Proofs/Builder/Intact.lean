import PageMeta.Proofs.Builder.Building
import PageMeta.Proofs.Heap.Touch

/-!
# Builders that are used as their class says

Whatever is stored in a builder, and whatever is merged into it, no cell that was there changes but its
buffer.  What a builder hands out as a whole is in new cells.

A builder that is used by the functions that its class makes public keeps its buffer and nothing in the
place of functions, and has texts as keys in the buffer.

## Key results

- `Stores`: a later heap in which a builder has nothing but other things stored
- `set_stores`, `merge_stores`: storing and merging, with any arguments
- `toDict_extends`: copying the buffer of anything
- `Intact`: where a builder stands that is used as its class says
- `Part`: what a builder leads to
- `Intact.of_read_eq`: a builder stays intact if its own cells stay as they are
- `create_intact`: a new builder is intact
-/

namespace PageMeta.Builder

open Heap (Extends Agree AgreeBut Leads)

/-- Where the parts of a builder are, and that its attributes and its buffer are two dictionaries. -/
structure Firm (h : Heap) (kind : BuilderKind) (c : Cells) : Prop extends Placed h kind c where
  apart : c.attributes ≠ c.buffer

/-- A later heap with a builder where it was, in which no cell that was there has changed but its
buffer. -/
structure Stores (kind : BuilderKind) (c : Cells) (h h' : Heap) : Prop where
  firm : Firm h' kind c
  agree : AgreeBut c.buffer h h'

variable {h h' h'' : Heap} {kind : BuilderKind} {c : Cells} {v : Value} {key : Key} {name : String}

theorem Placed.builder_ne_buffer (hp : Placed h kind c) : c.builder ≠ c.buffer := fun heq => by
  obtain ⟨entries, hb⟩ := hp.buffer
  have hbuilder := hp.builder
  rw [heq, hb] at hbuilder
  cases hbuilder

namespace Firm

/-- A builder is where it was if nothing but its buffer has changed, and that still is a dictionary. -/
theorem agreeBut (hf : Firm h kind c) (ha : AgreeBut c.buffer h h')
    (hb : ∃ entries, h'.read c.buffer = some (.dict entries)) : Firm h' kind c := by
  obtain ⟨kept, hkept, hconfig, hpublic⟩ := hf.attributes
  have hold : ∀ {r : Ref} {cell : Cell}, r ≠ c.buffer → h.read r = some cell →
      h'.read r = some cell := fun hne hr => (ha.read_eq _ ⟨hne, Heap.lt_size_of_read hr⟩).trans hr
  exact ⟨⟨hold hf.builder_ne_buffer hf.builder, ⟨kept, hold hf.apart hkept, hconfig, hpublic⟩, hb⟩,
    hf.apart⟩

theorem of_extends (hf : Firm h kind c) (he : Extends h h') : Firm h' kind c :=
  hf.agreeBut he.agreeBut (hf.buffer.imp fun _ => he.read_of_some)

/-- The buffer is written. -/
theorem write (hf : Firm h kind c) (entries : Entries Key Value) :
    Stores kind c h (h.write c.buffer (.dict entries)) := by
  obtain ⟨old, hb⟩ := hf.buffer
  have ha : AgreeBut c.buffer h (h.write c.buffer (.dict entries)) :=
    ⟨by rw [Heap.size_write], fun r hr => Heap.read_write_of_ne _ _ _ _ hr.1.symm⟩
  exact ⟨hf.agreeBut ha ⟨entries, Heap.read_write_self _ _ _ (Heap.lt_size_of_read hb)⟩, ha⟩

end Firm

namespace Stores

theorem of_extends (hf : Firm h kind c) (he : Extends h h') : Stores kind c h h' :=
  ⟨hf.of_extends he, he.agreeBut⟩

theorem refl (hf : Firm h kind c) : Stores kind c h h := .of_extends hf (Heap.Agree.refl _ _)

theorem trans (h₁ : Stores kind c h h') (h₂ : Stores kind c h' h'') : Stores kind c h h'' :=
  ⟨h₂.firm, h₁.agree.trans h₂.agree⟩

end Stores

/-! ### Storing -/

theorem putAt_stores (hf : Firm h kind c) (key : Key) (v : Value) :
    Outcome (putAt (.ref c.builder) key v) h (fun _ h' => Stores kind c h h') (Stores kind c h) := by
  refine Outcome.bind (Outcome.of_ok (getAttribute_buffer hf.toPlaced) (Outcome.bind ?_))
  refine (Heap.settleKey_extends key h).mono (fun k h₁ he => ?_) fun _ => id
  have hs := Stores.of_extends hf he
  obtain ⟨entries, hb⟩ := hs.firm.buffer
  refine Outcome.bind ?_
  rw [Outcome, setItem_dict hb]
  exact Outcome.bind (Outcome.ask (fun k _ => hs.trans (hs.firm.write (entries.put k v))) hs)

/-- Whatever is stored under whatever key, no cell changes but the buffer. -/
theorem set_stores (hf : Firm h kind c) (key v : Value) :
    Outcome (set (.ref c.builder) key v) h (fun _ h' => Stores kind c h h') (Stores kind c h) :=
  Outcome.get_bind (putAt_stores hf _ v)

/-! ### Copying -/

/-- Copying the buffer of anything makes new cells only. -/
theorem toDict_extends (b : Value) (h : Heap) :
    Outcome (toDict b) h (fun _ h' => Extends h h') (Extends h) := by
  refine Outcome.bind ((Heap.getAttribute_extends b _ h).mono (fun v h₁ he => ?_) fun _ => id)
  exact (Heap.detach_extends v h₁).mono (fun _ _ => he.trans) fun _ => he.trans

theorem mergeSource_extends (other : Value) (h : Heap) :
    Outcome (mergeSource other) h (fun _ h' => Extends h h') (Extends h) := by
  refine Outcome.get_bind ?_
  split
  · exact Heap.unwrap_extends _ h
  · exact toDict_extends _ h
  · exact Heap.Agree.refl _ h

/-! ### Merging -/

theorem storeKeys_stores {source : Ref} {size : Nat} : ∀ (keys : List Key) {h : Heap},
    Firm h kind c → Outcome (Heap.forEntries
      (fun key v => do discard (putAt (.ref c.builder) ((← get).keyName key) v)) source size keys)
      h (fun _ h' => Stores kind c h h') (Stores kind c h)
  | [], _, hf => .refl hf
  | key :: rest, h, hf => by
    refine Outcome.get_bind (Outcome.bind (Outcome.get_bind (Outcome.discard ?_)))
    refine (putAt_stores hf _ _).mono (fun _ h₁ hs => Outcome.get_bind ?_) fun _ => id
    split
    · exact (storeKeys_stores rest hs.firm).mono (fun _ _ => hs.trans) fun _ => hs.trans
    · exact hs

/-- Whatever is merged, no cell changes but the buffer. -/
theorem merge_stores (hf : Firm h kind c) (other : Value) :
    Outcome (merge (.ref c.builder) other) h (fun _ h' => Stores kind c h h') (Stores kind c h) := by
  refine Outcome.bind ((mergeSource_extends other h).mono (fun source h₁ he => ?_)
    fun _ => Stores.of_extends hf)
  have hs := Stores.of_extends hf he
  refine Outcome.get_bind ?_
  split
  · refine Outcome.bind (Outcome.bind (Outcome.ask (fun entries _ => ?_) hs))
    exact (storeKeys_stores _ hs.firm).mono (fun _ _ => hs.trans) fun _ => hs.trans
  · exact hs

/-! ### Public use -/

/-- The private functions by which builders use their fields. -/
def fieldFunctions : List String := ["_field", "_app_field"]

/-- Where a builder stands that is used by the functions that its class makes public: it keeps nothing
in the place of those that its fields are used by, and the keys of the buffer are texts. -/
structure Intact (h : Heap) (kind : BuilderKind) (c : Cells) : Prop extends Firm h kind c where
  own : ∀ name ∈ fieldFunctions, Object.kept? h c.attributes name = none
  texts : ∀ entries, h.read c.buffer = some (.dict entries) → entries.TextKeys

/-- The cells that a builder leads to: its own, and those of all that its buffer holds. -/
def Part (h : Heap) (c : Cells) : Ref → Prop := h.Live (h.Leads [.ref c.builder])

/-! ### What a builder leads to -/

/-- What was there before is there as it was. -/
theorem Part.agree (he : Extends h h') : Agree (Part h c) h h' := he.mono fun _ hr => hr.2

/-- A builder leads to what it led to, if that is as it was. -/
theorem Part.later {r : Ref} (ha : Agree (Part h c) h h') (hr : Part h c r) : Part h' c r := by
  refine ⟨?_, Nat.lt_of_lt_of_le hr.2 ha.size_le⟩
  have hleads := hr.1
  clear hr
  induction hleads with
  | held hv hs => exact .held hv hs
  | step hr hread hs ih =>
    exact ih.step ((ha.read_eq _ ⟨hr, Heap.lt_size_of_read hread⟩).trans hread) hs

/-- A builder leads to its own cells. -/
theorem Placed.part (hp : Placed h kind c) :
    Part h c c.builder ∧ Part h c c.attributes ∧ Part h c c.buffer := by
  obtain ⟨kept, hkept, hconfig, -⟩ := hp.attributes
  obtain ⟨entries, hentries⟩ := hp.buffer
  obtain ⟨k, hmem⟩ := Entries.exists_of_get? hconfig
  have hbuilder : h.Leads [.ref c.builder] c.builder := Heap.leads_self _
  have hattributes : h.Leads [.ref c.builder] c.attributes :=
    hbuilder.step hp.builder List.mem_cons_self
  have hbuffer : h.Leads [.ref c.builder] c.buffer := by
    refine hattributes.step hkept (List.mem_flatMap.mpr ⟨_, hmem, ?_⟩)
    exact List.mem_append_right _ List.mem_cons_self
  exact ⟨⟨hbuilder, Heap.lt_size_of_read hp.builder⟩, ⟨hattributes, Heap.lt_size_of_read hkept⟩,
    hbuffer, Heap.lt_size_of_read hentries⟩

/-- What a builder has kept is read off its attributes. -/
theorem kept?_congr {attributes : Ref} {kept : Entries Key Value}
    (hr : h.read attributes = some (.dict kept)) (hr' : h'.read attributes = some (.dict kept)) :
    Object.kept? h' attributes name = Object.kept? h attributes name := by
  rw [Object.kept?, Object.kept?, Heap.entriesAt_dict hr, Heap.entriesAt_dict hr']

namespace Intact

/-- A builder is intact if its own cells are as they were, whatever has become of what it holds. -/
theorem of_read_eq (hb : Intact h kind c) (hbuilder : h'.read c.builder = h.read c.builder)
    (hattributes : h'.read c.attributes = h.read c.attributes)
    (hbuffer : h'.read c.buffer = h.read c.buffer) : Intact h' kind c := by
  obtain ⟨kept, hkept, hconfig, hpublic⟩ := hb.attributes
  obtain ⟨entries, hentries⟩ := hb.buffer
  have hkept' := hattributes.trans hkept
  have hentries' := hbuffer.trans hentries
  refine ⟨⟨⟨hbuilder.trans hb.builder, ⟨kept, hkept', hconfig, hpublic⟩, entries, hentries'⟩,
    hb.apart⟩, fun name hname => ?_, fun es hes => ?_⟩
  · rw [kept?_congr hkept hkept']
    exact hb.own name hname
  · rw [hentries'] at hes
    cases hes
    exact hb.texts entries hentries

theorem agree (hb : Intact h kind c) (ha : Agree (Part h c) h h') : Intact h' kind c := by
  obtain ⟨hbuilder, hattributes, hbuffer⟩ := hb.part
  exact hb.of_read_eq (ha.read_eq _ hbuilder) (ha.read_eq _ hattributes) (ha.read_eq _ hbuffer)

theorem of_extends (hb : Intact h kind c) (he : Extends h h') : Intact h' kind c :=
  hb.agree (Part.agree he)

/-- A builder stays intact if a value is written into its buffer under a text. -/
theorem write (hb : Intact h kind c) {entries : Entries Key Value}
    (hr : h.read c.buffer = some (.dict entries)) (hk : key.text? = some name) (v : Value) :
    Intact (h.write c.buffer (.dict (entries.put key v))) kind c := by
  obtain ⟨kept, hkept, -⟩ := hb.attributes
  refine ⟨(hb.toFirm.write _).firm, fun name hname => ?_, fun es hes => ?_⟩
  · rw [kept?_congr hkept ((Heap.read_write_of_ne _ _ _ _ hb.apart.symm).trans hkept)]
    exact hb.own name hname
  · rw [Heap.read_write_self _ _ _ (Heap.lt_size_of_read hr)] at hes
    cases hes
    intro p hp
    rcases Entries.mem_put hp with ⟨-, hp | ⟨q, hq, hp⟩⟩ | hp
    · exact ⟨name, hp ▸ hk⟩
    · exact hp ▸ hb.texts entries hr q hq
    · exact hb.texts entries hr p hp

end Intact

/-- A builder that keeps nothing but its buffer is intact. -/
theorem Bare.intact {entries : Entries Key Value} (hb : Bare h kind c entries)
    (ht : entries.TextKeys) (hne : c.attributes ≠ c.buffer) : Intact h kind c := by
  refine ⟨⟨hb.placed, hne⟩, fun name hname => ?_, fun es hes => ?_⟩
  · have hother : name ≠ "_config" := by
      rintro rfl
      exact absurd hname (by decide)
    rw [Object.kept?, Heap.entriesAt_dict hb.attributes, get?_config _ hother]
    rfl
  · rw [hb.buffer] at hes
    cases hes
    exact ht

/-- A new builder is intact, and all its cells are new. -/
theorem create_intact (kind : BuilderKind) (h : Heap) :
    ∃ c h', create kind h = .ok (.ref c.builder) h' ∧ Extends h h' ∧ Intact h' kind c ∧
      h.size ≤ c.builder.index ∧ h.size ≤ c.attributes.index ∧ h.size ≤ c.buffer.index := by
  obtain ⟨c, h', hrun, he, hb, hnew⟩ := create_bare kind h
  exact ⟨c, h', hrun, he, hb.intact (fun p hp => absurd hp List.not_mem_nil) hb.apart, hnew⟩

end PageMeta.Builder
