import PageMeta.Proofs.Settings.Checking
import PageMeta.Proofs.Settings.ExactLoading

/-!
# Stores in use

Whatever values are loaded into a store, assigned to its scalars and written into the maps of its
sections, whether that succeeds or fails, the store stays where it is.  So it can be checked at any
time.

## Key results

- `load_placed`: loading any value leaves a store where it was
- `StoreUsed.placed`: so does any use of it
- `StoreUsed.judged`: what checking a store in use comes to
-/

namespace PageMeta.Settings

open Heap

variable {h h' : Heap} {c : Cells} {scalar : String → Value} {v : Value} {κ : Type} {w : World κ}

/-- Whether a store stands at some cells in a sound heap. -/
def Placed (c : Cells) (h : Heap) : Prop := h.Sound ∧ ∃ scalar, Layout h c scalar

theorem Placed.keepsFree (hp : Placed c h) (hk : KeepsFree h h') : Placed c h' :=
  ⟨hk.sound, hp.2.imp fun _ hc => hc.keepsFree hk⟩

/-- Loading leaves a store where it was, whatever is loaded. -/
theorem load_placed (call : Caller κ) (hp : Placed c w.heap) (hv : w.heap.Fine v) :
    Outcome (load call (.ref c.store) v) w (fun _ w' => Placed c w'.heap)
      fun w' => Placed c w'.heap := by
  obtain ⟨hs, scalar, hc⟩ := hp
  refine Outcome.get_bind ?_
  dsimp only
  split
  · rename_i data entries hcell
    have hnames : ∀ name ∈ scalarNames, name ∈ scalarNames := fun _ => id
    obtain ⟨h₁, scalar', hrun, hc₁, hspares, -⟩ :=
      loadScalars_spec_any hnames (by decide) hs hc (hs.cells data _ hcell).2
    refine Outcome.bind (Outcome.onHeap (Outcome.of_ok hrun (Outcome.bind ?_)))
    -- every merge of a section keeps the cells that belong to no map, those of the store among them
    exact loadSections_outcome call (c := c) data (I := fun _ => Placed c) (F := Placed c)
      (fun _ _ hi => hi.2) (fun _ _ _ hi _ => hi)
      (fun name rest h hi => by
        obtain ⟨scalar, hl⟩ := hi.2
        exact (AttributeMap.merge_outcome AttributeMap.upkeep_keepsFree.toCopyUpkeep hi.1 (hl.map name)
          (fine_incoming hi.1 data name)).mono (fun _ _ => hi.keepsFree) fun _ => hi.keepsFree)
      SectionName.all (w := { w with heap := h₁ }) ⟨hspares.sound, scalar', hc₁⟩
  · exact ⟨hs, scalar, hc⟩

/-- Assigning any value to a scalar leaves a store where it was. -/
theorem assign_placed {name : String} (hp : Placed c h) (hn : name ∈ scalarNames)
    (hv : h.Fine v) : Outcome (Object.setAttribute (.ref c.store) name v) h
      (fun _ h' => Placed c h') (Placed c) := by
  obtain ⟨hs, scalar, hc⟩ := hp
  have hspares := write_spares hs hc hn hv
  exact Outcome.of_ok (setAttribute_scalar hc hn) ⟨hspares.sound, _, hc.write_scalar hspares⟩

/-! ### Runs -/

namespace StoreCall

/-- Whether a call loads, assigns or writes a value that is there. -/
def Made (h : Heap) : StoreCall → Prop
  | load data => h.Fine data
  | assign name value => name ∈ scalarNames ∧ h.Fine value
  | write map => map.Writes h h.Fine

/-- After a call the store is where it was. -/
theorem after_placed (call : Caller κ) {step : StoreCall} (hp : Placed c w.heap)
    (hm : step.Made w.heap) : Placed c (step.after call (.ref c.store) w).heap := by
  have houtcome : Outcome (step.run call (.ref c.store)) w (fun _ w' => Placed c w'.heap)
      fun w' => Placed c w'.heap := by
    cases step with
    | load data => exact Outcome.discard (load_placed call hp hm)
    | assign name value => exact Outcome.onHeap (assign_placed hp hm.1 hm.2)
    | write map =>
      exact Outcome.onHeap ((AttributeMap.MapCall.write_outcome AttributeMap.upkeep_keepsFree
        hp.1 hm).mono (fun _ _ => hp.keepsFree) fun _ => hp.keepsFree)
  rw [after_eq]
  exact houtcome.stateAfter

end StoreCall

/-- Whether a world can be reached by making a store, building arguments, and calls that load, assign
or write any values, whether they succeed or fail. -/
inductive StoreUsed (call : Caller κ) (s : Value) : World κ → Prop
  | create {w : World κ} {h' : Heap} : w.heap.Sound → Store.create w.heap = .ok s h' →
      StoreUsed call s { w with heap := h' }
  | build {w : World κ} {h' : Heap} : StoreUsed call s w → Extends w.heap h' →
      AttributeMap.Arguments w.heap.size h' → StoreUsed call s { w with heap := h' }
  | call {w : World κ} (step : StoreCall) : StoreUsed call s w → step.Made w.heap →
      StoreUsed call s (step.after call s w)

/-- However a store is used, it stays where it was made. -/
theorem StoreUsed.placed {call : Caller κ} {s : Value} (hu : StoreUsed call s w) :
    ∃ c : Cells, s = .ref c.store ∧ Placed c w.heap := by
  induction hu with
  | @create w h' hs hrun =>
    obtain ⟨c, g, hcreate, -, hx, -⟩ := create_stands hs
    rw [hrun] at hcreate
    cases hcreate
    exact ⟨c, rfl, hx.sound, hx.scalars.imp fun _ hc => hc.1⟩
  | @build w h' _ he hn ih =>
    obtain ⟨c, rfl, hp⟩ := ih
    exact ⟨c, rfl, hp.keepsFree (AttributeMap.grows_of_arguments hp.1 he hn).keepsFree⟩
  | call step _ hm ih =>
    obtain ⟨c, rfl, hp⟩ := ih
    exact ⟨c, rfl, step.after_placed call hp hm⟩

/-- A store in use is passed or complained about, unless the length of a default title or description
is asked for in vain. -/
theorem StoreUsed.judged {call : Caller κ} {s : Value} (hu : StoreUsed call s w) :
    ∃ title description, setting call s .metaTags "default_title" w = .ok title w ∧
      setting call s .metaTags "default_description" w = .ok description w ∧
      Judged w.heap [title, description] (validate call s w) := by
  obtain ⟨c, rfl, hs, scalar, hc⟩ := hu.placed
  exact ⟨_, _, setting_ok call hc.equipped _ _, setting_ok call hc.equipped _ _,
    validate_judged call hs hc⟩

end PageMeta.Settings
