import PageMeta.Object.Invoke
import PageMeta.Proofs.Builder.Sparing

/-!
# All or nothing

An operation on a builder that fails leaves all that the builder leads to as it was: everything that can
go wrong goes wrong before the one entry is stored.  The client's code that an operation comes to has
to leave the builder alone for that, which is a block that fills another builder, and what a stored
value is asked for its keys by.

## Key results

- `Atomic`: actions on a builder that are all or nothing
- `storeIn_ok`, `plainField_ok`, `handleField_ok`: storing what is there cannot fail
- `storeForPlatform_atomic`, `nested_atomic`, `articleField_atomic`, `dynamicField_atomic`: what a
  function works out before it stores anything
-/

namespace PageMeta.Builder

open Heap (Extends Agree isPrivate)

variable {κ α β : Type} {call : Caller κ} {routine : Nat → Value → Action κ Unit} {w w₁ : World κ}
  {h' : Heap} {kind : BuilderKind} {c : Cells} {v : Value} {name : String}

/-- Whether an action on a builder is all or nothing: if it succeeds, the builder is intact, and if it
fails, all that the builder leads to is as it was. -/
def Atomic (kind : BuilderKind) (c : Cells) (w : World κ) (x : Action κ α) : Prop :=
  Outcome x w (fun _ w' => Intact w'.heap kind c) fun w' => Agree (Part w.heap c) w.heap w'.heap

namespace Atomic

/-- An action that cannot fail. -/
theorem of_ok {x : Action κ α} (hx : ∃ a w', x w = .ok a w' ∧ Intact w'.heap kind c) :
    Atomic kind c w x := by
  obtain ⟨a, w', hrun, hb⟩ := hx
  exact Outcome.of_ok hrun hb

/-- An action that leaves the builder alone. -/
theorem of_spares {x : Action κ α} (hb : Intact w.heap kind c) (hx : Spares (Part w.heap c) w x) :
    Atomic kind c w x := Outcome.mono hx (fun _ _ ha => hb.agree ha) fun _ => id

theorem throw (e : Error) : Atomic kind c w (throw e : Action κ α) := Agree.refl _ w.heap

/-- An action after another one that leaves the builder alone. -/
theorem after {x : Action κ α} (hx : Atomic kind c w₁ x) (ha : Agree (Part w.heap c) w.heap w₁.heap) :
    Outcome x w₁ (fun _ w' => Intact w'.heap kind c) fun w' =>
      Agree (Part w.heap c) w.heap w'.heap :=
  Outcome.mono hx (fun _ _ hb => hb) fun _ hf => ha.trans (hf.mono fun _ => Part.later ha)

theorem bind_spares {x : Action κ α} {f : α → Action κ β} (hx : Spares (Part w.heap c) w x)
    (hf : ∀ a w₁, Agree (Part w.heap c) w.heap w₁.heap → Atomic kind c w₁ (f a)) :
    Atomic kind c w (x >>= f) :=
  Outcome.bind (Outcome.mono hx (fun a w₁ ha => (hf a w₁ ha).after ha) fun _ => id)

end Atomic

theorem Spares.part {x : Action κ α} (hx : Spares (There w.heap) w x) : Spares (Part w.heap c) w x :=
  hx.mono fun _ hr => hr.2

/-! ### Storing and reading -/

theorem storeIn_ok (call : Caller κ) (hb : Intact w.heap kind c) (key v : Value) :
    ∃ u w', storeIn call (.ref c.builder) key v w = .ok u w' ∧ Intact w'.heap kind c := by
  obtain ⟨h', hrun, hb'⟩ := set_intact hb key v
  exact ⟨_, _, (run_bind_ok (storing_ok call hb.toPlaced)).trans (run_onHeap_ok hrun), hb'⟩

theorem storeOrRead_ok (call : Caller κ) (hb : Intact w.heap kind c) (key v : Value) :
    ∃ u w', storeOrRead call (.ref c.builder) key v w = .ok u w' ∧ Intact w'.heap kind c := by
  unfold storeOrRead
  split
  · exact ⟨_, w, readFrom_ok call hb.toPlaced key, hb⟩
  · exact storeIn_ok call hb key v

/-- A new list or dictionary is stored. -/
theorem storeNew_ok (call : Caller κ) (hb : Intact w.heap kind c) (key : Value) (cell : Cell) :
    ∃ u w', (do
      let v ← Action.onHeap (do return .ref (← Heap.alloc cell))
      storeIn call (.ref c.builder) key v : Action κ Value) w = .ok u w' ∧
      Intact w'.heap kind c :=
  storeIn_ok (w := { w with heap := w.heap.push cell }) call (hb.of_extends (Heap.extends_push _ _))
    key _

/-- A plain field of an intact builder stores or reads. -/
theorem plainField_run (call : Caller κ) (hb : Intact w.heap kind c) (name : String) (v : Value) :
    plainField call (.ref c.builder) name v w =
      storeOrRead call (.ref c.builder) (.ofText name) v w := by
  rw [plainField, run_bind_ok (ask_field hb.toPlaced), hb.own "_field" (by decide)]
  rfl

theorem plainField_ok (call : Caller κ) (hb : Intact w.heap kind c) (name : String) (v : Value) :
    ∃ u w', plainField call (.ref c.builder) name v w = .ok u w' ∧ Intact w'.heap kind c := by
  rw [plainField_run call hb]
  exact storeOrRead_ok call hb _ v

/-! ### Declared fields -/

theorem listField_atomic (call : Caller κ) (hb : Intact w.heap kind c) (vs : List Value) :
    Atomic kind c w (listField call (.ref c.builder) name vs) := by
  unfold listField
  split
  · exact .of_ok ⟨_, w, readFrom_ok call hb.toPlaced _, hb⟩
  · refine Outcome.bind (Outcome.onHeap (Outcome.ask (fun flat _ => ?_) (Agree.refl _ _)))
    exact Atomic.of_ok (storeNew_ok call hb _ _)

/-- The text of a handle is made before it is stored. -/
theorem handleField_ok (call : Caller κ) (hb : Intact w.heap kind c) (name : String) (v : Value) :
    ∃ u w', (do
      let text ← Action.onHeap (Heap.settle v)
      plainField call (.ref c.builder) name text : Action κ Value) w = .ok u w' ∧
      Intact w'.heap kind c := by
  obtain ⟨text, h₁, hrun, hcells, -⟩ := Heap.settle_cells w.heap v
  have hb₁ := hb.of_extends (Heap.extends_of_cells hcells)
  obtain ⟨u, w', hfield, hb'⟩ := plainField_ok (w := { w with heap := h₁ }) call hb₁ name text
  exact ⟨u, w', (run_bind_ok (run_onHeap_ok hrun)).trans hfield, hb'⟩

/-- What is stored for platforms is worked out before it is stored. -/
theorem storeForPlatform_atomic (hb : Intact w.heap kind c) {name : String}
    (hkeys : TellsKeys call c w (stored w.heap c (Key.ofText name))) (v platform : Value) :
    Atomic kind c w (storeForPlatform call (.ref c.builder) (.ofText name) v platform) := by
  unfold storeForPlatform
  split
  · exact .of_ok ⟨_, w, readFrom_ok call hb.toPlaced _, hb⟩
  · exact .of_ok (storeNew_ok call hb _ _)
  · refine Outcome.bind (Outcome.of_ok (readFrom_ok call hb.toPlaced _) (Outcome.get_bind ?_))
    -- with whatever entries the new dictionary starts, only the platform may be no key
    have hstore : ∀ (entries : Entries Key Value) (w₁ : World κ),
        Agree (Part w.heap c) w.heap w₁.heap → Atomic kind c w₁ (do
          let k ← Action.ask fun h => h.toKey platform
          storeIn call (.ref c.builder) (.ofText name)
            (← Action.onHeap (Heap.newDict ((Entries.ofList entries).put k v)))) := by
      intro entries w₁ ha
      refine Outcome.bind (Outcome.onHeap (Outcome.ask (fun k _ => ?_) (Agree.refl _ _)))
      exact Atomic.of_ok (storeNew_ok call (hb.agree ha) _ _)
    split
    · exact Atomic.bind_spares (updateEntries_spares hkeys) hstore
    · exact hstore [] w (Agree.refl _ _)

/-- A field for platforms of an intact builder stores for platforms or reads. -/
theorem appField_run (call : Caller κ) (hb : Intact w.heap .twitterCards c) (name : String)
    (v platform : Value) :
    appField call (.ref c.builder) name v platform w =
      storeForPlatform call (.ref c.builder) (.ofText name) v platform w := by
  rw [appField, run_bind_ok (ask_appField hb.toPlaced), hb.own "_app_field" (by decide)]
  rfl

theorem appField_atomic (hb : Intact w.heap .twitterCards c)
    (hkeys : TellsKeys call c w (stored w.heap c (Key.ofText name))) (v platform : Value) :
    Atomic .twitterCards c w (appField call (.ref c.builder) name v platform) := by
  rw [Atomic, Outcome, appField_run call hb]
  exact storeForPlatform_atomic hb hkeys v platform

/-! ### Blocks -/

/-- What a new builder is filled with and builds is stored at last. -/
theorem nested_atomic (hb : Intact w.heap kind c) (he : Extends w.heap h') (key : Value)
    {block : Value} (hblock : block ≠ .none → Discreet call c w h' kind block) :
    Outcome (nested call (.ref c.builder) key block) { w with heap := h' }
      (fun _ w' => Intact w'.heap kind c) fun w' => Agree (Part w.heap c) w.heap w'.heap := by
  obtain ⟨child, h₁, hcreate, he₁, hchild, -⟩ := create_intact kind h'
  have hb' : Intact h' kind c := hb.of_extends he
  have ha₁ : Agree (Part w.heap c) w.heap h₁ := Part.agree (he.trans he₁)
  have hanother : another call (.ref c.builder) { w with heap := h' } =
      .ok (.ref child.builder) { w with heap := h₁ } :=
    (another_eq call hb'.toPlaced).trans (run_onHeap_ok hcreate)
  have hfill := fill_eq (w := { w with heap := h₁ }) call hchild.toPlaced block
  refine Outcome.bind (Outcome.of_ok hanother (Outcome.bind ?_))
  rw [Outcome, hfill]
  refine Outcome.discard ((evaluate_spares hblock hcreate).mono (fun _ w₂ hw => ?_)
    fun _ => ha₁.trans)
  have ha₂ := ha₁.trans hw.1
  have hfinish := (hw.2.spares fun r hr => Nat.lt_of_lt_of_le hr.2 ha₂.size_le).1
  refine Outcome.bind (Outcome.of_ok (storing_ok call (hb.agree ha₂).toPlaced) (Outcome.bind ?_))
  refine Outcome.mono hfinish (fun result w₃ ha₃ => ?_) fun _ => ha₂.trans
  obtain ⟨h₄, hset, hb₄⟩ := set_intact (hb.agree (ha₂.trans ha₃)) key result
  exact Outcome.of_ok (run_onHeap_ok hset) hb₄

/-- So is what a builder of articles is filled with and builds. -/
theorem articleField_atomic (hb : Intact w.heap kind c) {block : Value}
    (hblock : block ≠ .none → Discreet call c w w.heap .article block) :
    Atomic kind c w (articleField call (.ref c.builder) block) := by
  unfold articleField
  split
  · exact .of_ok ⟨_, w, readFrom_ok call hb.toPlaced _, hb⟩
  · obtain ⟨child, h₁, hcreate, he₁, hchild, -⟩ := create_intact .article w.heap
    have ha₁ : Agree (Part w.heap c) w.heap h₁ := Part.agree he₁
    refine Outcome.bind (Outcome.of_ok (storing_ok call hb.toPlaced) (Outcome.bind
      (Outcome.of_ok (run_onHeap_ok hcreate) (Outcome.bind (Outcome.discard ?_)))))
    refine (evaluate_spares hblock hcreate).mono (fun _ w₂ hw => ?_)
      fun _ => ha₁.trans
    have ha₂ := ha₁.trans hw.1
    have hbuild := (hw.2.spares fun r hr => Nat.lt_of_lt_of_le hr.2 ha₂.size_le).2
    refine Outcome.bind (Outcome.mono hbuild (fun result w₃ ha₃ => ?_) fun _ => ha₂.trans)
    obtain ⟨h₄, hset, hb₄⟩ := set_intact (hb.agree (ha₂.trans ha₃)) (.ofText "article") result
    exact Outcome.of_ok (run_onHeap_ok hset) hb₄

/-- A field that the class does not declare refuses what it cannot take before it stores anything. -/
theorem dynamicField_atomic (hb : Intact w.heap kind c) (he : Extends w.heap h') (key : Value)
    (values : List Value) {block : Value}
    (hblock : block ≠ .none → Discreet call c w h' kind block) :
    Outcome (dynamicField call (.ref c.builder) key values block) { w with heap := h' }
      (fun _ w' => Intact w'.heap kind c) fun w' => Agree (Part w.heap c) w.heap w'.heap := by
  have hb' : Intact h' kind c := hb.of_extends he
  have ha : Agree (Part w.heap c) w.heap h' := Part.agree he
  refine Outcome.get_bind ?_
  split
  · exact Outcome.of_ok (readFrom_ok (w := { w with heap := h' }) call hb'.toPlaced key) hb'
  · dsimp only
    split
    · exact ha
    · obtain ⟨u, w', hrun, hb''⟩ := storeIn_ok (w := { w with heap := h' }) call hb' key _
      exact Outcome.of_ok hrun hb''
  · have hcommon : "nested" ∈ commonFunctions := by decide
    have hask := ask_common (w := { w with heap := h' }) hb'.toPlaced hcommon
    refine Outcome.bind (Outcome.of_ok hask (Outcome.get_bind ?_))
    rw [isOwn_common (w := { w with heap := h' }) hb'.toPlaced, if_pos rfl]
    exact nested_atomic hb he key hblock
  · dsimp only
    split <;> exact ha

end PageMeta.Builder
