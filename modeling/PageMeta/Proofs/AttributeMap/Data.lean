import PageMeta.Proofs.AttributeMap.Hands
import PageMeta.Proofs.Heap.Data

/-!
# Attribute maps of data

Whatever operations are called on attribute maps, what was data before is data afterwards, as long as
the operations are called with data.

## Key results

- `upkeep_data`: operations with data keep data
- `MapCall.after_data`, `Filled.kept`: a call, and any calls
-/

namespace PageMeta.AttributeMap

open Heap

variable {h h' start : Heap} {v : Value} {m : Ref}

/-- A later heap that is sound, in which all data are still data. -/
structure KeepsData (h h' : Heap) : Prop extends Keeps h h' where
  data : DataKept h h'

/-- What a mapping of data has for its keys is data. -/
theorem pure_entriesAt (hv : h.Pure [.ref m]) : ∀ p ∈ h.entriesAt m, h.Pure [p.2] := by
  intro p hp
  obtain ⟨d, es, hd, hread, hmem⟩ := exists_dict_of_entriesAt hv.there.closed (leads_self m) hp
  exact hv.of_held (hv.dict hd hread p hmem) (hv.there.closed.dict hd hread p hmem).2.of_live

/-- Storing data in a map. -/
theorem putEntry_data {key : Key} {name : String} (hs : h.Sound) (hm : h.isMap (.ref m) = true)
    (hk : key.text? = some name) (hv : h.Pure [v]) {failed : Heap → Prop} :
    Outcome (putEntry m key v) h (fun _ h' => DataKept h h') failed := by
  obtain ⟨data, hread⟩ := read_of_isMap hm
  obtain ⟨d, es, rfl, hd, hkeys⟩ := hs.cells m _ hread
  have hn : ¬ h.IsTuple d := fun ⟨items, htuple⟩ => by
    rw [hd] at htuple
    cases htuple
  refine Outcome.of_ok (putEntry_ok key v hread hd) (dataKept_write hn fun hdata => ?_)
  have hes : ∀ p ∈ es, h.Pure [p.2] := fun p hp => hdata.of_held
    (hdata.dict (leads_self d) hd p hp) (hdata.there.closed.dict (leads_self d) hd p hp).2.of_live
  refine dict_data (fun p hp => ?_) fun p hp => ?_
  · rcases Entries.mem_put hp with ⟨-, rfl | ⟨q, hq, hkey⟩⟩ | hp
    · exact ⟨name, hk⟩
    · exact hkey ▸ hkeys q hq
    · exact hkeys p hp
  · rcases Entries.mem_put hp with ⟨heq, -⟩ | hp
    · exact heq ▸ hv
    · exact hes p hp

/-- Storing a copy of data in a map. -/
theorem store_data {key : Key} {name : String} (hs : h.Sound) (hm : h.isMap (.ref m) = true)
    (hk : key.text? = some name) (hfine : h.Fine v) (hv : h.Pure [v]) :
    Outcome (do let w ← wrap v; putEntry m key w) h (fun _ h' => DataKept h h') (DataKept h) := by
  refine Outcome.bind (((wrap_outcome hs hfine).and (wrap_data hs hv)).mono ?_
    fun _ hf => dataKept_of_extends hf.2)
  rintro w h₁ ⟨⟨hg, -⟩, he, hw⟩
  have hput : Outcome (putEntry m key w) h₁ (fun _ h' => DataKept h₁ h') (DataKept h) :=
    putEntry_data hg.sound (hg.keeps.maps m hm) hk hw
  exact hput.mono (fun _ _ => (dataKept_of_extends he).trans) fun _ => id

/-- Operations with data keep data. -/
theorem upkeep_data : Upkeep (fun h v => h.Fine v ∧ h.Pure [v]) KeepsData where
  refl hs := ⟨.refl hs, fun _ => id⟩
  trans h₁ h₂ := ⟨h₁.toKeeps.trans h₂.toKeeps, h₁.data.trans h₂.data⟩
  keeps hk := hk.toKeeps
  cells hs hc := ⟨upkeep_keeps.cells hs hc, dataKept_of_extends (extends_of_cells hc)⟩
  isMap := id
  remains hk := hk.maps _
  inner _ _ := id
  stays hk hv := ⟨hk.fine hv.1, hv.2.later hk.data⟩
  absent _ := ⟨⟨rfl, fun r heq => by cases heq⟩, pure_singleton.mpr ⟨rfl, held_of_addresses rfl⟩⟩
  entries hs hv p hp := ⟨fine_entriesAt hs _ p hp, pure_entriesAt hv.2 p hp⟩
  store hs hm hk hv := ((upkeep_keeps.store hs hm hk hv.1).and (store_data hs hm hk hv.1 hv.2)).mono
    (fun _ _ hw => ⟨hw.1, hw.2⟩) fun _ hw => ⟨hw.1, hw.2⟩
  storeMap hs hm hk hv hmap := ((upkeep_keeps.storeMap hs hm hk hv.1 hmap).and
    (putEntry_data hs hm hk hv.2)).mono (fun _ _ hw => ⟨hw.1, hw.2⟩) fun _ hw => ⟨hw.1, hw.2⟩

/-- A map that is made of data is data, and nothing else has changed. -/
theorem create_data (hs : h.Sound) (hv : h.Pure [v]) :
    Outcome (create v) h (fun w h' => Extends h h' ∧ h'.Pure [w]) (Extends h) := by
  refine Outcome.get_bind ?_
  split
  · exact (make_data .wrapped (fun _ hp => absurd hp List.not_mem_nil)
      fun _ hp => absurd hp List.not_mem_nil).mono (fun _ _ => id) fun _ => False.elim
  · split
    · exact wrap_data hs hv
    · exact .refl _ _

/-! ### Calls -/

namespace MapCall

/-- Whether the values of a call are data. -/
def WithData (h : Heap) : MapCall → Prop
  | create source => h.Fine source ∧ h.Pure [source]
  | call => call.Writes h fun v => h.Fine v ∧ h.Pure [v]

/-- A call with data keeps the heap sound, and data. -/
theorem after_data {call : MapCall} (hs : h.Sound) (hd : call.WithData h) :
    KeepsData h (call.after h) := by
  have houtcome : Outcome call.run h (fun _ h' => KeepsData h h') (KeepsData h) := by
    cases call with
    | create source =>
      exact Outcome.discard (((create_outcome hs hd.1).and (create_data hs hd.2)).mono
        (fun _ _ hw => ⟨hw.1, dataKept_of_extends hw.2.1⟩)
        fun _ hw => ⟨hw.1, dataKept_of_extends hw.2⟩)
    | _ => exact write_outcome upkeep_data hs hd
  rw [after_eq]
  exact houtcome.stateAfter

end MapCall

/-- Whether a heap can be reached from another by making new cells, whatever they are, and by calling
operations on maps with data. -/
inductive Filled (start : Heap) : Heap → Prop
  | start : Filled start start
  | build {h h' : Heap} : Filled start h → Extends h h' → h'.Sound → Filled start h'
  | call {h : Heap} (call : MapCall) : Filled start h → call.WithData h →
      Filled start (call.after h)

/-- What was data is data after any calls with data. -/
theorem Filled.kept (hs : start.Sound) (hf : Filled start h) : KeepsData start h := by
  induction hf with
  | start => exact upkeep_data.refl hs
  | build _ he hsound ih =>
    refine upkeep_data.trans ih ⟨⟨hsound, he.size_le, fun m hm => ?_⟩, dataKept_of_extends he⟩
    obtain ⟨data, hread⟩ := read_of_isMap hm
    exact isMap_of_read (he.read_of_some hread)
  | call call _ hd ih => exact upkeep_data.trans ih (call.after_data ih.sound hd)

end PageMeta.AttributeMap
