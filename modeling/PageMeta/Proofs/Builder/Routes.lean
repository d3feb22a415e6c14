import PageMeta.Proofs.Builder.History

/-!
# Ways to the fields of a builder

A field of a builder is read through `get`, through a field of its name, and through the function that
the class declares for it; it is written through `set`, by assignment and through a field of its name.
Whatever the history of the builder, all of them read what was written last under the text, and all of them
write alike.

## Key results

- `Reading`, `Writing`: all ways of reading a field give one value, and all ways of writing it file the value
- `reading_of_intact`, `writing_of_intact`: an intact builder has them for every public name
- `fields_agree`: all ways agree after any history
-/

namespace PageMeta.Builder

open Heap (Extends isPrivate)

variable {κ : Type} {call : Caller κ} {routine : Nat → Value → Action κ Unit} {kind : BuilderKind}
  {b : Value} {w w' : World κ} {c : Cells} {name : Name} {ws : List (String × Value)}

/-- All ways of reading a field give a value, and change nothing: `get` with every key of one text, a
field of that name that was made at any time, one that is made now if the class has nothing else under
the name, and the function that the class declares if it is one that reads, with no argument or with
none. -/
structure Reading (call : Caller κ) (routine : Nat → Value → Action κ Unit) (kind : BuilderKind)
    (c : Cells) (w : World κ) (name : Name) (v : Value) : Prop where
  byGet : ∀ k, w.heap.keyText (.atom k) = name.text →
    Object.send (Object.invoke call routine) (.ref c.builder) "get" (.of [k]) w = .ok v w
  byField : ∀ f own, w.heap.read f = some (.field (.ref c.builder) own) →
    w.heap.keyText (.atom own) = name.text → Object.invoke call routine (.ref f) {} w = .ok v w
  byNewField : (ClassName.builder kind).definer? name.text = none → name.text ≠ "payload_model" →
    ∃ f h', Object.getAttribute (.ref c.builder) name w.heap = .ok (.ref f) h' ∧
      h'.read f = some (.field (.ref c.builder) name.value) ∧
      Object.invoke call routine (.ref f) {} { w with heap := h' } = .ok v { w with heap := h' }
  byGetter : ∀ rule, kind.field? name.text = some rule → rule.reads = true →
    Object.send (Object.invoke call routine) (.ref c.builder) name {} w = .ok v w
  byNone : ∀ rule, kind.field? name.text = some rule → rule.takesNone = true →
    Object.send (Object.invoke call routine) (.ref c.builder) name (.of [.none]) w = .ok v w

/-- All ways of writing a field file a value in the same way: `set` with every key of one text,
assignment, and a field of that name.  A field that is given a block is `nested` under its name. -/
structure Writing (call : Caller κ) (routine : Nat → Value → Action κ Unit) (kind : BuilderKind)
    (c : Cells) (w : World κ) (name : Name) : Prop where
  bySet : ∀ k v, w.heap.keyText (.atom k) = name.text → ∃ w',
    Object.send (Object.invoke call routine) (.ref c.builder) "set" (.of [k, v]) w =
      .ok (.ref c.builder) w' ∧ Files kind c [(name.text, v)] w.heap w'.heap
  byAssignment : ∀ v, ∃ w',
    Object.assign (Object.invoke call routine) (.ref c.builder) name.text v w = .ok () w' ∧
      Files kind c [(name.text, v)] w.heap w'.heap
  byField : ∀ f own v, w.heap.read f = some (.field (.ref c.builder) own) →
    w.heap.keyText (.atom own) = name.text → ∃ w',
    Object.invoke call routine (.ref f) (.of [v]) w = .ok (.ref c.builder) w' ∧
      Files kind c [(name.text, v)] w.heap w'.heap
  byBlock : ∀ f own block, w.heap.read f = some (.field (.ref c.builder) own) → block ≠ .none →
    Object.invoke call routine (.ref f) { named := [("block", block)] } w =
      Object.send (Object.invoke call routine) (.ref c.builder) "nested" (.of [own, block]) w

/-- All ways of reading an intact builder agree. -/
theorem reading_of_intact (hb : Intact w.heap kind c) (hpublic : isPrivate name.text = false)
    (hmade : (filedAt w.heap c name.text).isMade = true) :
    Reading call routine kind c w name (filedAt w.heap c name.text) where
  byGet k hk := send_get hb hk hmade
  byField f own hread hk := call_field hb hread hk hmade
  byNewField hd hno := by
    obtain ⟨f, hget, hread⟩ := getAttribute_field hb hpublic hd hno
    have he : Extends w.heap (w.heap.push (.field (.ref c.builder) name.value)) :=
      Heap.extends_push _ _
    -- making the field leaves what is filed as it was
    have hsame : filedAt (w.heap.push (.field (.ref c.builder) name.value)) c name.text =
        filedAt w.heap c name.text := by
      rw [filedAt, (Files.of_extends hb he).filed_eq]
      rfl
    refine ⟨f, _, hget, hread, ?_⟩
    rw [← hsame]
    exact call_field (w := { w with heap := w.heap.push (.field (.ref c.builder) name.value) })
      (hb.of_extends he) hread rfl (hsame ▸ hmade)
  byGetter rule hrule hreads := send_getter hb hrule hreads hmade
  byNone rule hrule hnone := send_getter_none hb hrule hnone hmade

/-- All ways of writing an intact builder agree. -/
theorem writing_of_intact (hb : Intact w.heap kind c) (hpublic : isPrivate name.text = false) :
    Writing call routine kind c w name where
  bySet k v hk := by
    have hbind : (Object.signature (.builder .plain) "set").bind
        ((Arguments.of [k, v]).after (.ref c.builder)) = .ok ⟨[.ref c.builder, k, v], [], [], []⟩ := rfl
    obtain ⟨h', hrun, ha⟩ := send_set hb hbind
    exact ⟨_, hrun, hk ▸ ha.toFiles⟩
  byAssignment v := by
    obtain ⟨h', hrun, ha⟩ := assign_files (Object.invoke call routine) hb hpublic v
    exact ⟨_, hrun, ha.toFiles⟩
  byField f own v hread hk := by
    have hbind : (Object.signature .dynamicField "__call__").bind
        ((Arguments.of [v]).after (.ref f)) = .ok ⟨[.ref f], [v], [.none], []⟩ := rfl
    obtain ⟨h', hrun, ha⟩ := call_field_value hb hread hbind
    exact ⟨_, hrun, hk ▸ ha.toFiles⟩
  byBlock f own block hread hblock := call_field_block hb hread hblock

/-- Whatever the history of a builder, its buffer has the texts that were written as keys, each with the
value that was written last, and no text is ever removed.  Under every public name all ways of reading
give what was written last, or nothing if nothing was written, and all ways of writing file alike. -/
theorem fields_agree {w₀ : World κ} {h₀ : Heap} (hcreate : create kind w₀.heap = .ok b h₀)
    (hw : History .free call routine kind b { w₀ with heap := h₀ } ws w)
    (hmade : ∀ p ∈ ws, p.2.isMade = true) :
    ∃ c : Cells, b = .ref c.builder ∧
      (∃ entries, buffer w.heap b = .ok c.buffer ∧ w.heap.read c.buffer = some (.dict entries) ∧
        entries.TextKeys ∧ w.heap.named entries = Entries.ofList ws) ∧
      (∀ us w', History .free call routine kind b w us w' →
        ∀ name ∈ Entries.keys (filed w.heap c), name ∈ Entries.keys (filed w'.heap c)) ∧
      ∀ name : Name, isPrivate name.text = false →
        Reading call routine kind c w name ((Entries.get? name.text ws.reverse).getD .none) ∧
        Writing call routine kind c w name := by
  obtain ⟨c, h₁, hrun, -, hb₀, -⟩ := create_intact kind w₀.heap
  obtain ⟨rfl, rfl⟩ : b = .ref c.builder ∧ h₀ = h₁ := by
    rw [hcreate] at hrun
    cases hrun
    exact ⟨rfl, rfl⟩
  have hf := hw.files rfl hb₀
  have hb := hf.intact
  -- the buffer of a new builder is empty, so it has what was written and nothing else
  have hfiled : filed w.heap c = Entries.ofList ws := by
    rw [hf.filed_eq, filed_create hcreate hb₀.toPlaced]
    rfl
  obtain ⟨entries, hread⟩ := hb.buffer
  refine ⟨c, rfl, ⟨entries, buffer_eq hb.toPlaced, hread, hb.texts entries hread, ?_⟩,
    fun us w' hw' name hname => ?_, fun name hpublic => ⟨?_, writing_of_intact hb hpublic⟩⟩
  · rw [← hfiled, filed, Heap.entriesAt_dict hread]
  · rw [(hw'.files rfl hb).filed_eq]
    exact Entries.mem_keys_putAll hname us
  · -- what is read last was made, because everything that was written was
    have hlast : filedAt w.heap c name.text = (Entries.get? name.text ws.reverse).getD .none := by
      rw [filedAt, hfiled, Entries.get?_ofList]
    rw [← hlast]
    refine reading_of_intact hb hpublic ?_
    rw [hlast]
    cases hget : Entries.get? name.text ws.reverse with
    | none => rfl
    | some v =>
      obtain ⟨k, hmem⟩ := Entries.exists_of_get? hget
      exact hmade _ (List.mem_reverse.mp hmem)

/-- The world after nothing was stored under a number in a builder of cards. -/
def emptiedCard : World Unit :=
  stateAfter (Object.send (Object.invoke noCaller noRoutine) (.ref ⟨2⟩) "set"
    (.of [.ofInt 7, .none])) (newBuilder .twitterCards)

/-- The world after the title was filled in as well. -/
def titledCard : World Unit :=
  stateAfter (Object.send (Object.invoke noCaller noRoutine) (.ref ⟨2⟩) "title"
    (.of [.ofText "Shop"])) emptiedCard

theorem fields_agree_card : ∃ c : Cells, c.builder = ⟨2⟩ ∧
    Reading noCaller noRoutine .twitterCards c titledCard "7" .none ∧
    Reading noCaller noRoutine .twitterCards c titledCard "title" (.ofText "Shop") := by
  have hcreate : create .twitterCards voidWorld.heap =
      .ok (.ref ⟨2⟩) (newBuilder .twitterCards).heap := rfl
  have hset : Object.send (Object.invoke noCaller noRoutine) (.ref ⟨2⟩) "set"
      (.of [.ofInt 7, .none]) (newBuilder .twitterCards) = .ok (.ref ⟨2⟩) emptiedCard := rfl
  have hfield : Object.send (Object.invoke noCaller noRoutine) (.ref ⟨2⟩) "title"
      (.of [.ofText "Shop"]) emptiedCard = .ok (.ref ⟨2⟩) titledCard := rfl
  have hvalue : fieldValue noCaller (.ref ⟨2⟩) "title" .plain
      ⟨[.ref ⟨2⟩, .ofText "Shop"], [], [], []⟩ emptiedCard =
        .ok (some (.ofText "Shop")) emptiedCard := rfl
  have hemptied : History .free noCaller noRoutine .twitterCards (.ref ⟨2⟩)
      (newBuilder .twitterCards) [("7", .none)] emptiedCard := .set .start trivial rfl hset
  have htitled := History.field hemptied ⟨fun _ _ => trivial, fun _ _ => trivial⟩
    (fun _ _ => trivial) rfl rfl hvalue .start hfield
  obtain ⟨c, hc, -, -, hall⟩ := fields_agree hcreate htitled (by decide)
  exact ⟨c, (Value.ref.inj hc).symm, (hall "7" (by decide +kernel)).1,
    (hall "title" (by decide +kernel)).1⟩

/-- The world after a number was stored under the state of a feature. -/
def stateFiled : World Unit :=
  stateAfter (Object.send (Object.invoke noCaller noRoutine) (.ref ⟨2⟩) "set"
    (.of [.feature .enabled, .ofInt 1])) (newBuilder .plain)

/-- The state of a feature is filed under the text that it is, so nothing is read under the text that it
is displayed as. -/
theorem field_not_displayed :
    History .free noCaller noRoutine .plain (.ref ⟨2⟩) (newBuilder .plain)
        [("enabled", .ofInt 1)] stateFiled ∧
      stateFiled.heap.display (.feature .enabled) = "FeatureState.ENABLED" ∧
      Object.send (Object.invoke noCaller noRoutine) (.ref ⟨2⟩) "get"
        (.of [.ofText "FeatureState.ENABLED"]) stateFiled = .ok .none stateFiled := by
  have hset : Object.send (Object.invoke noCaller noRoutine) (.ref ⟨2⟩) "set"
      (.of [.feature .enabled, .ofInt 1]) (newBuilder .plain) = .ok (.ref ⟨2⟩) stateFiled := rfl
  exact ⟨.set .start trivial rfl hset, by decide +kernel, rfl⟩

end PageMeta.Builder
