import PageMeta.Proofs.Settings.Fresh

/-!
# Loading settings

Loading a dictionary of plain data assigns scalars and merges sections.  Whatever happens to the
sections, the store holds plain data afterwards; so it does after any calls.

## Key results

- `loadScalars_spec`: the scalars that a dictionary has are taken over
- `loadSections_outcome`: what every merge of a section keeps is kept
- `StoreReached.stands`: after any calls a store holds plain data
-/

namespace PageMeta.Settings

open Heap

/-- The contents with the scalars that a dictionary has. -/
def Contents.withScalars (x : Contents) (ts : Entries String (Tree String))
    (names : List String) : Contents :=
  { x with scalar := fun name =>
    if name ∈ names then (ts.get? name).getD (x.scalar name) else x.scalar name }

variable {h h' : Heap} {c : Cells} {x : Contents} {t : Tree String} {v : Value} {κ : Type}
  {call : Caller κ} {w : World κ}

/-! ### Scalars -/

/-- A copy of a scalar shows what the scalar shows. -/
theorem copyScalar_data (hs : h.Sound) (hd : IsData h t v) :
    ∃ w h', copyScalar v h = .ok w h' ∧ Grows .plain h h' ∧ IsData h' t w := by
  suffices houtcome : Outcome (copyScalar v) h (fun w h' => Grows .plain h h' ∧ IsData h' t w)
      fun _ => False from houtcome.exists_ok
  refine Outcome.get_bind ?_
  split
  · rename_i items hc
    obtain ⟨r, rfl⟩ : ∃ r, v = .ref r := by
      cases v with
      | ref r => exact ⟨r, rfl⟩
      | _ => cases hc
    obtain ⟨ts, rfl, hts⟩ := hd.items_of_list hc
    obtain ⟨w, h', hw, hg, hd⟩ := newList_data hs hts hd.plain
    exact Outcome.of_ok hw ⟨hg, hd⟩
  · exact ⟨.refl hs, hd⟩

/-- Taking one scalar over, then others. -/
theorem Contents.withScalars_cons {ts : Entries String (Tree String)} {name : String}
    {rest : List String} {u : Tree String} (hu : (ts.get? name).getD (x.scalar name) = u) :
    Contents.withScalars { x with scalar := Function.update x.scalar name u } ts rest =
      x.withScalars ts (name :: rest) := by
  subst hu
  simp only [withScalars, Contents.mk.injEq, and_true]
  funext other
  by_cases heq : other = name
  · subst heq
    cases ts.get? other <;> simp
  · simp [heq]

/-- The scalars that a dictionary has are taken over. -/
theorem loadScalars_spec {ts : Entries String (Tree String)} {es : Entries Key Value} :
    ∀ {names : List String} {h : Heap} {x : Contents}, (∀ name ∈ names, name ∈ scalarNames) →
      Stands h c x → Entries.Match (fun _ t v => IsData h t v) ts es →
      ∃ h', loadScalars (.ref c.store) es names h = .ok () h' ∧
        Stands h' c (x.withScalars ts names) ∧ Spares c.attributes h h'
  | [], h, x, _, hx, _ => ⟨h, rfl, by simpa [Contents.withScalars] using hx, .refl hx.sound⟩
  | name :: rest, h, x, hn, hx, hm => by
    obtain ⟨hname, hrest⟩ := List.forall_mem_cons.mp hn
    rcases hm.get? (show (Key.ofText name).text? = some name from rfl) with
      ⟨hnone, hget⟩ | ⟨u, v, hsome, hget, hd⟩
    · obtain ⟨h', hrun, hx', hs⟩ := loadScalars_spec hrest hx hm
      have hsame : x.withScalars ts rest = x.withScalars ts (name :: rest) := by
        rw [← Contents.withScalars_cons rfl, hnone, Option.getD_none, Function.update_eq_self]
      refine ⟨h', ?_, hsame ▸ hx', hs⟩
      simpa only [loadScalars, hget, bind, EStateM.bind, pure, EStateM.pure] using hrun
    · obtain ⟨v', h₁, hcopy, hg, hd₁⟩ := copyScalar_data hx.sound hd
      have hx₁ := hx.grows hg
      obtain ⟨h₂, hassign, hx₂, hs₂⟩ := hx₁.assign hname hd₁
      obtain ⟨scalar, hc, -⟩ := hx₁.scalars
      -- the dictionary that is loaded is not the one that is assigned to
      have hm₂ : Entries.Match (fun _ t v => IsData h₂ t v) ts es :=
        hm.imp fun _ _ _ hd => hc.isData_spares hs₂ (hd.lasts hg.lasts)
      obtain ⟨h', hrun, hx', hs⟩ := loadScalars_spec hrest hx₂ hm₂
      have hu : (ts.get? name).getD (x.scalar name) = u := by rw [hsome, Option.getD_some]
      rw [Contents.withScalars_cons hu] at hx'
      refine ⟨h', ?_, hx', ((Spares.of_grows hg).trans hs₂).trans hs⟩
      simp only [loadScalars, hget, bind, EStateM.bind, hcopy, hassign, hrun]

/-! ### Sections -/

/-- What a dictionary has for a section. -/
def incoming (h : Heap) (data : Ref) (name : SectionName) : Value :=
  ((h.entriesAt data).get? (Key.ofText name.name)).getD .none

/-- What is given for a section. -/
def offer (ts : Entries String (Tree String)) (name : SectionName) : Tree String :=
  (ts.get? name.name).getD (.leaf .none)

/-- What a dictionary of plain data has for a section shows what is given for it. -/
theorem offer_reads {ts : Entries String (Tree String)} {within : Ref → Prop} {data : Ref}
    (hr : h.Reads .plain within (.map ts) (.ref data)) (name : SectionName) :
    h.Reads .plain within (offer ts name) (incoming h data name) :=
  hr.getD (by decide) name.name

/-- Merging into a map is merging. -/
theorem mergeInto_outcome {m : Ref} {ok failed : Heap → Prop} (hm : w.heap.isMap (.ref m) = true)
    (hrun : Outcome (AttributeMap.merge m v) w.heap (fun _ h' => ok h') failed) :
    Outcome (mergeInto call (.ref m) v) w (fun _ w' => ok w'.heap) (fun w' => failed w'.heap) := by
  refine Outcome.get_bind ?_
  rw [hm]
  exact Outcome.discard (Outcome.onHeap hrun)

/-- What is known before the sections are loaded and kept by every merge is known afterwards. -/
theorem loadSections_outcome (call : Caller κ) (data : Ref)
    {I : List SectionName → Heap → Prop} {F : Heap → Prop}
    (hlayout : ∀ names h, I names h → ∃ scalar, Layout h c scalar)
    (hskip : ∀ name rest h, I (name :: rest) h → incoming h data name = .none → I rest h)
    (hmerge : ∀ name rest h, I (name :: rest) h →
      Outcome (AttributeMap.merge (c.map name) (incoming h data name)) h
        (fun _ h' => I rest h') F) :
    ∀ (names : List SectionName) {w : World κ}, I names w.heap →
      Outcome (loadSections call (.ref c.store) data names) w (fun _ w' => I [] w'.heap)
        (fun w' => F w'.heap)
  | [], _, hw => hw
  | name :: rest, w, hw => by
    have hnext : ∀ {w' : World κ}, I rest w'.heap →
        Outcome (loadSections call (.ref c.store) data rest) w' (fun _ w' => I [] w'.heap)
          (fun w' => F w'.heap) := loadSections_outcome call data hlayout hskip hmerge rest
    refine Outcome.get_bind ?_
    dsimp only
    split
    · rename_i hnone
      exact hnext (hskip name rest _ hw hnone)
    · obtain ⟨scalar, hc⟩ := hlayout _ _ hw
      refine Outcome.bind (Outcome.of_ok (sectionNamed_ok hc name) (Outcome.bind ?_))
      refine (mergeInto_outcome (hc.map name) (hmerge name rest _ hw)).mono (fun _ _ => hnext) ?_
      exact fun _ => id

/-! ### Loading -/

/-- What is found in a dictionary of plain data are plain data. -/
theorem incoming_data {data : Ref} (hd : IsData h t (.ref data)) (name : SectionName) :
    ∃ u, IsData h u (incoming h data name) := by
  unfold incoming
  cases hget : (h.entriesAt data).get? (Key.ofText name.name) with
  | none => exact ⟨_, .of_isPlain rfl⟩
  | some v =>
    obtain ⟨k, hmem⟩ := Entries.exists_of_get? hget
    exact hd.of_entriesAt _ hmem

/-- Loading plain data leaves a store that holds plain data, whether it succeeds or fails. -/
theorem load_outcome (hx : Stands w.heap c x) (hd : IsData w.heap t v) :
    Outcome (load call (.ref c.store) v) w (fun _ w' => ∃ y, Stands w'.heap c y)
      (fun w' => ∃ y, Stands w'.heap c y) := by
  refine Outcome.get_bind ?_
  dsimp only
  split
  · rename_i data entries hcell
    obtain ⟨ts, rfl, hm⟩ := hd.match_of_dict hcell
    obtain ⟨scalar, hc, -⟩ := hx.scalars
    obtain ⟨h₁, hrun, hx₁, hs⟩ := loadScalars_spec (fun _ => id) hx hm
    refine Outcome.bind (Outcome.onHeap (Outcome.of_ok hrun (Outcome.bind ?_)))
    -- what is known throughout is that the store holds plain data and that the dictionary that is
    -- loaded has not changed
    have hsections := loadSections_outcome call (c := c) data
      (I := fun _ h => (∃ y, Stands h c y) ∧ IsData h (.map ts) (.ref data))
      (F := fun h => ∃ y, Stands h c y) ?_ ?_ ?_ SectionName.all (w := { w with heap := h₁ })
      ⟨⟨_, hx₁⟩, hc.isData_spares hs hd⟩
    · exact hsections.mono (fun _ _ hend => hend.1) fun _ => id
    · exact fun _ _ hi => hi.1.elim fun _ hy => hy.scalars.imp fun _ hl => hl.1
    · exact fun _ _ _ hi _ => hi
    · rintro name rest h ⟨⟨y, hy⟩, hdata⟩
      obtain ⟨_, hl, -⟩ := hy.scalars
      refine (AttributeMap.merge_outcome AttributeMap.upkeep_lasts.toCopyUpkeep hy.sound (hl.map name)
        (incoming_data hdata name)).mono (fun _ h' hlasts => ⟨?_, hdata.lasts hlasts⟩) ?_
      · exact (hy.lasts hlasts).imp fun _ hz => hz.1
      · exact fun h' hlasts => (hy.lasts hlasts).imp fun _ hz => hz.1
  · exact ⟨x, hx⟩

/-! ### Runs -/

/-- A call that changes a store or the maps of its sections. -/
inductive StoreCall where
  | load (data : Value)
  | assign (name : String) (value : Value)
  | write (call : AttributeMap.MapCall)

namespace StoreCall

/-- Does what a call says. -/
def run (call : Caller κ) (s : Value) : StoreCall → Action κ Unit
  | load data => discard (Settings.load call s data)
  | assign name value => Action.onHeap (Object.setAttribute s name value)
  | write map => Action.onHeap map.run

/-- Whether a call loads, assigns or writes plain data. -/
def Given (h : Heap) : StoreCall → Prop
  | load data => ∃ t, IsData h t data
  | assign name value => name ∈ scalarNames ∧ ∃ t, IsData h t value
  | write map => map.Writes h fun v => ∃ t, IsData h t v

/-- The world that a call leaves behind, whether it succeeds or fails. -/
def after (call : Caller κ) (s : Value) (w : World κ) (step : StoreCall) : World κ :=
  match step.run call s w with
  | .ok _ w' | .error _ w' => w'

theorem after_eq (call : Caller κ) (s : Value) (w : World κ) (step : StoreCall) :
    step.after call s w = stateAfter (step.run call s) w := by
  unfold after stateAfter
  cases step.run call s w <;> rfl

/-- After a call a store holds plain data as before. -/
theorem after_stands (call : Caller κ) {step : StoreCall} (hx : Stands w.heap c x)
    (hg : step.Given w.heap) :
    ∃ y, Stands (step.after call (.ref c.store) w).heap c y := by
  have houtcome : Outcome (step.run call (.ref c.store)) w (fun _ w' => ∃ y, Stands w'.heap c y)
      (fun w' => ∃ y, Stands w'.heap c y) := by
    cases step with
    | load data =>
      obtain ⟨t, hd⟩ := hg
      exact Outcome.discard (load_outcome hx hd)
    | assign name value =>
      obtain ⟨hn, t, hd⟩ := hg
      obtain ⟨h', hrun, hx', -⟩ := hx.assign hn hd
      exact Outcome.onHeap (Outcome.of_ok hrun ⟨_, hx'⟩)
    | write map =>
      refine Outcome.onHeap ((AttributeMap.MapCall.write_outcome AttributeMap.upkeep_lasts
        hx.sound hg).mono ?_ ?_)
      · exact fun _ h' hlasts => (hx.lasts hlasts).imp fun _ hy => hy.1
      · exact fun h' hlasts => (hx.lasts hlasts).imp fun _ hy => hy.1
  rw [after_eq]
  exact houtcome.stateAfter

end StoreCall

/-- Whether a world can be reached by making a store, building arguments, and calls that load,
assign or write plain data. -/
inductive StoreReached (call : Caller κ) (s : Value) : World κ → Prop
  | create {w : World κ} {h' : Heap} : w.heap.Sound → Store.create w.heap = .ok s h' →
      StoreReached call s { w with heap := h' }
  | build {w : World κ} {h' : Heap} : StoreReached call s w → Extends w.heap h' →
      AttributeMap.Arguments w.heap.size h' → StoreReached call s { w with heap := h' }
  | call {w : World κ} (step : StoreCall) : StoreReached call s w → step.Given w.heap →
      StoreReached call s (step.after call s w)

/-- After any calls a store holds plain data. -/
theorem StoreReached.stands {s : Value} (hr : StoreReached call s w) :
    ∃ c x, s = .ref c.store ∧ Stands w.heap c x := by
  induction hr with
  | @create w h' hs hrun =>
    obtain ⟨c, g, hcreate, -, hx, -⟩ := create_stands hs
    rw [hrun] at hcreate
    cases hcreate
    exact ⟨c, _, rfl, hx⟩
  | @build w h' _ he hn ih =>
    obtain ⟨c, x, rfl, hx⟩ := ih
    exact ⟨c, x, rfl, hx.grows (AttributeMap.grows_of_arguments hx.sound he hn)⟩
  | call step _ hg ih =>
    obtain ⟨c, x, rfl, hx⟩ := ih
    obtain ⟨y, hy⟩ := StoreCall.after_stands call hx hg
    exact ⟨c, y, rfl, hy⟩

end PageMeta.Settings
