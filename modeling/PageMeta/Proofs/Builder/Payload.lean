import PageMeta.Proofs.Builder.Building
import PageMeta.Proofs.Judgement
import PageMeta.Proofs.Schema.Check

/-!
# The records of builders

A builder whose buffer has the declared types and that passes its own rules need not have a record: the
rules of Open Graph and of cards ask for some texts to be there, but the records ask for them not to be
empty.  That is the only difference.

## Key results

- `meets_iff_filled`: what the record of a builder in order asks for is that some texts are not empty
- `buildRecord_typed`: so a builder in order has a record exactly if these are not empty
-/

namespace PageMeta.Builder

open Schema (TypedRecord MeetsRecord MeetsFields IsRecord)

variable {h : Heap} {kind : BuilderKind} {c : Cells} {schema : RecordSchema} {κ : Type}
  {w : World κ}

/-! ### The rules -/

/-- The fields that the rules of a class of builders ask for. -/
def demandedFields : BuilderKind → List String
  | .openGraph => requiredFields
  | .twitterCards => ["title", "description"]
  | .plain | .metaTags | .article => []

/-- The texts among them that must not be empty in the record. -/
def filledTexts : BuilderKind → List String
  | .openGraph => ["title", "type", "url"]
  | .twitterCards => ["title", "description"]
  | .plain | .metaTags | .article => []

theorem violations_of_valid (hvalid : validate kind (.ref c.builder) h = .ok (.bool true) h) :
    violations h (.ref c.builder) kind = .ok [] := by
  rw [validate_run] at hvalid
  cases hv : violations h (.ref c.builder) kind with
  | error e => rw [hv] at hvalid; cases hvalid
  | ok broken =>
    rw [hv] at hvalid
    cases broken with
    | nil => rfl
    | cons => cases hvalid

/-- A builder in order has the fields that its rules ask for. -/
theorem stored_of_valid (hp : Placed h kind c)
    (hvalid : validate kind (.ref c.builder) h = .ok (.bool true) h) :
    ∀ name ∈ demandedFields kind, (stored h c (Key.ofText name)).isNone = false := by
  have hnone := violations_of_valid hvalid
  cases kind with
  | plain | metaTags | article => exact fun _ hn => absurd hn List.not_mem_nil
  | openGraph =>
    rw [violations, openGraphViolations, missingFields_ok hp] at hnone
    have hmissing := List.map_eq_nil_iff.mp (Except.ok.inj hnone)
    intro name hn
    simpa using List.filter_eq_nil_iff.mp hmissing name hn
  | twitterCards =>
    simp only [violations, twitterCardsViolations, field, fieldAt_ok hp, bind, Except.bind] at hnone
    split at hnone
    · cases hnone
    split at hnone
    · cases hnone
    -- both lengths could be told, so every rule was checked and none was broken
    · have hall := Except.ok.inj hnone
      simp only [List.append_eq_nil_iff, Settings.when_eq_nil] at hall
      obtain ⟨⟨⟨⟨⟨-, htitle⟩, hdescription⟩, -⟩, -⟩, -⟩ := hall
      intro name hn
      rcases List.mem_pair.mp hn with rfl | rfl
      · exact htitle
      · exact hdescription

/-! ### The record -/

theorem get?_of_stored {entries : Entries Key Value} {key : Key}
    (hb : h.read c.buffer = some (.dict entries)) (hs : (stored h c key).isNone = false) :
    entries.get? key = some (stored h c key) := by
  rw [stored, Heap.entriesAt_dict hb] at hs ⊢
  cases hget : entries.get? key with
  | some v => rfl
  | none => rw [hget] at hs; cases hs

/-- What the record of a builder in order asks for beyond the declared types is that some texts are not
empty. -/
theorem meets_iff_filled (hschema : Schema.ofBuilder kind = some schema) (hp : Placed h kind c)
    (ht : TypedRecord h schema (.ref c.buffer))
    (hvalid : validate kind (.ref c.builder) h = .ok (.bool true) h) :
    MeetsRecord h schema (.ref c.buffer) ↔
      ∀ name ∈ filledTexts kind, (stored h c (Key.ofText name)).text? ≠ some "" := by
  obtain ⟨schemaName, fields, keeps⟩ := schema
  rw [TypedRecord] at ht
  obtain ⟨entries, he, -, hfields⟩ := ht
  rw [MeetsRecord]
  simp only [he, Option.some.injEq, Cell.dict.injEq, forall_eq']
  rw [Schema.meetsFields_iff]
  have hstored : ∀ name ∈ demandedFields kind,
      entries.get? (Key.ofText name) = some (stored h c (Key.ofText name)) := fun name hn =>
    get?_of_stored he (stored_of_valid hp hvalid name hn)
  -- a text that has to be there is there
  have htext : ∀ name, name ∈ demandedFields kind → Schema.requiredText name ∈ fields →
      (MeetsFields h [Schema.requiredText name] entries ↔
        (stored h c (Key.ofText name)).text? ≠ some "") := fun name hn hf => by
    have htyped := Schema.typedFields_mem hfields _ hf _ (hstored name hn)
    rw [Schema.requiredText, SchemaField.shape, Schema.Typed] at htyped
    obtain ⟨s, hs⟩ := htyped
    rw [Schema.requiredText, MeetsFields, MeetsFields, hstored name hn, and_true]
    simp only [Schema.Meets, hs, Option.some.injEq, forall_eq', ne_eq, Nat.one_le_iff_ne_zero,
      String.length_eq_zero_iff]
  cases kind with
  | plain => cases hschema
  | metaTags | article =>
    cases hschema
    exact iff_of_true (fun _ hf => absurd hf List.not_mem_nil) fun _ hn => absurd hn List.not_mem_nil
  | openGraph =>
    cases hschema
    -- the other fields ask for no more than their types
    have hdemanding : Schema.demanding Schema.openGraphPayload.fields =
        (filledTexts .openGraph).map Schema.requiredText ++ [.mk "image" .textOrMapping .required] :=
      rfl
    have himage : MeetsFields h [.mk "image" .textOrMapping .required] entries := by
      rw [MeetsFields, MeetsFields, hstored "image" (by decide), and_true]
      simp only [Schema.Meets]
    show (∀ f ∈ Schema.demanding Schema.openGraphPayload.fields, _) ↔ _
    rw [hdemanding, List.forall_mem_append, List.forall_mem_singleton, and_iff_left himage,
      List.forall_mem_map]
    have hdemanded : ∀ name ∈ filledTexts .openGraph, name ∈ demandedFields .openGraph := by decide
    exact forall₂_congr fun name hn => htext name (hdemanded name hn) <|
      List.mem_of_mem_filter (hdemanding ▸ List.mem_append_left _ (List.mem_map_of_mem hn))
  | twitterCards =>
    cases hschema
    have hdemanding : Schema.demanding Schema.twitterCardsPayload.fields =
        (filledTexts .twitterCards).map Schema.requiredText := rfl
    show (∀ f ∈ Schema.demanding Schema.twitterCardsPayload.fields, _) ↔ _
    rw [hdemanding, List.forall_mem_map]
    exact forall₂_congr fun name hn => htext name hn <|
      List.mem_of_mem_filter (hdemanding ▸ List.mem_map_of_mem hn)

/-- The class of the record of a builder is found with the builder. -/
theorem getAttribute_payload (hschema : Schema.ofBuilder kind = some schema) (hp : Placed h kind c) :
    Object.getAttribute (.ref c.builder) "payload_model" h =
      .ok (.classOf (.schema schema.name)) h := by
  have hfacts : ∀ kind, Object.classFunction? (.builder kind) "payload_model" = none ∧
      (ClassName.builder kind).definer? "payload_model" = none := by
    intro kind
    cases kind <;> decide +kernel
  have hfound : Object.lookup h (.ref c.builder) "payload_model" =
      .ok (.stored (.classOf (.schema schema.name))) := by
    have hpublic : Heap.isPrivate "payload_model" = false := by decide +kernel
    have hkept := kept?_public hp hpublic
    -- the builder keeps nothing under the name, so its class answers
    simp [Object.lookup, className_builder hp, hfacts, Object.cellAttribute, hp.builder,
      Object.builderAttribute, hkept, Object.builderFact?, Object.payloadClass, hschema,
      Object.onBehalf]
  simp only [Object.getAttribute, bind, EStateM.bind, Name.ofText, Heap.ask, hfound]
  rfl

/-- The class of the record of a builder stands for its schema. -/
theorem schemaOf?_payload (hschema : Schema.ofBuilder kind = some schema) :
    buildRecord.schemaOf? (.classOf (.schema schema.name)) = some schema := by
  cases kind <;> cases hschema <;> rfl

/-- The record of a builder is read from what building gives. -/
theorem buildRecord_eq (call : Caller κ) (hschema : Schema.ofBuilder kind = some schema)
    (hp : Placed w.heap kind c) :
    buildRecord call (.ref c.builder) w = (do
      let result ← build call (.ref c.builder)
      Action.onHeap (Schema.read .usual schema result)) w := by
  rw [buildRecord, run_bind_ok (run_onHeap_ok (getAttribute_payload hschema hp))]
  simp only [schemaOf?_payload hschema]
  simp only [bind, EStateM.bind, finish_eq call hp]

/-- A builder whose buffer has the declared types and that passes its own rules has a record exactly if
the texts that the record asks for are not empty, provided that its buffer can be copied. -/
theorem buildRecord_typed (call : Caller κ) (hschema : Schema.ofBuilder kind = some schema)
    (hp : Placed w.heap kind c) (ht : TypedRecord w.heap schema (.ref c.buffer))
    (hvalid : validate kind (.ref c.builder) w.heap = .ok (.bool true) w.heap) :
    match toDict (.ref c.builder) w.heap with
    | .error e _ => ∃ w', buildRecord call (.ref c.builder) w = .error e w'
    | .ok _ _ =>
      ((∀ name ∈ filledTexts kind, (stored w.heap c (Key.ofText name)).text? ≠ some "") →
        ∃ v w', buildRecord call (.ref c.builder) w = .ok v w' ∧
          IsRecord w'.heap schema.name v) ∧
      ∀ name ∈ filledTexts kind, (stored w.heap c (Key.ofText name)).text? = some "" →
        ∃ issues w', buildRecord call (.ref c.builder) w =
          .error (.mismatch ⟨schema.name, issues⟩) w' := by
  rw [buildRecord_eq call hschema hp]
  have hcopy : toDict (.ref c.builder) w.heap = Heap.detach (.ref c.buffer) w.heap :=
    run_bind_ok (getAttribute_buffer hp)
  cases hdetach : Heap.detach (.ref c.buffer) w.heap with
  | error e h' =>
    rw [hcopy, hdetach]
    refine ⟨_, run_bind_error ((run_bind_ok ((check_eq call hp).trans (run_discard_ok
      (run_onHeap_ok hvalid)))).trans (run_bind_error (run_onHeap_error (hcopy.trans hdetach))))⟩
  | ok v h' =>
    rw [hcopy, hdetach]
    -- the copy of the buffer has the same types and meets the same demands
    obtain ⟨rfl, rfl⟩ := Heap.eq_of_detach hdetach
    obtain ⟨ht', hmeets⟩ := Schema.typedRecord_carried (Schema.carries_detach w.heap (.ref c.buffer))
      (fun r => Heap.mem_reachable) ht
    rw [meets_iff_filled hschema hp ht hvalid] at hmeets
    obtain ⟨entries, hdict⟩ := ht'.dict
    obtain ⟨w', hbuild, hheap⟩ := build_of_toDict call hp hvalid (hcopy.trans hdetach) hdict
    rw [run_bind_ok hbuild]
    rw [← hheap] at ht' hmeets
    rcases Schema.read_typed ht' with ⟨hm, u, h'', hrun, hu⟩ | ⟨hm, issues, h'', hrun⟩
    · refine ⟨fun _ => ⟨u, _, run_onHeap_ok hrun, hu⟩, fun name hn hempty => ?_⟩
      exact absurd hempty (hmeets.mp hm name hn)
    · exact ⟨fun hfilled => absurd (hmeets.mpr hfilled) hm, fun _ _ _ =>
        ⟨issues, _, run_onHeap_error hrun⟩⟩

/-- The world with an Open Graph builder whose fields are filled, the title with a text. -/
def titledWorld (title : String) : World Unit where
  heap := ⟨#[.dict (Heap.textKeys [("title", .ofText title), ("type", .ofText "website"),
      ("url", .ofText "u"), ("image", .ofText "i")]),
    .dict (Heap.textKeys [("_config", .ref ⟨0⟩)]), .builder .openGraph ⟨1⟩], 0⟩
  current := none
  log := []
  constants := []
  client := ()

theorem placed_titledWorld (title : String) :
    Placed (titledWorld title).heap .openGraph ⟨⟨2⟩, ⟨1⟩, ⟨0⟩⟩ :=
  Bare.placed ⟨rfl, rfl, rfl⟩

theorem typed_titledWorld (title : String) :
    TypedRecord (titledWorld title).heap Schema.openGraphPayload (.ref ⟨0⟩) := by
  rw [Schema.openGraphPayload, TypedRecord]
  refine ⟨_, rfl, Heap.textKeys_texts _, ?_⟩
  simp [Schema.requiredText, Schema.optionalText, Schema.optionalTexts, Schema.optionalRecord,
    Schema.optionalMedia, Schema.TypedFields, Schema.Typed, Heap.textKeys, Entries.get?,
    Key.beq_ofText, Value.text?, Value.ofText]

/-- If the title is empty, such a builder is in order but has no record. -/
theorem buildRecord_typed_emptyTitle :
    validate .openGraph (.ref ⟨2⟩) (titledWorld "").heap = .ok (.bool true) (titledWorld "").heap ∧
    ∃ issues w', buildRecord (fun _ _ => throw .tooDeep) (.ref ⟨2⟩) (titledWorld "") =
      .error (.mismatch ⟨"OpenGraphPayload", issues⟩) w' := by
  have hvalid : validate .openGraph (.ref ⟨2⟩) (titledWorld "").heap =
      .ok (.bool true) (titledWorld "").heap := rfl
  obtain ⟨v, h', hcopy⟩ : ∃ v h', toDict (.ref ⟨2⟩) (titledWorld "").heap = .ok v h' :=
    ⟨_, _, rfl⟩
  have hrecord := buildRecord_typed (fun _ _ => throw .tooDeep) rfl (placed_titledWorld "")
    (typed_titledWorld "") hvalid
  rw [hcopy] at hrecord
  exact ⟨hvalid, hrecord.2 "title" (by decide) rfl⟩

/-- If it is not, the builder has one. -/
example : ∃ v w', buildRecord (fun _ _ => throw .tooDeep) (.ref ⟨2⟩) (titledWorld "t") = .ok v w' :=
  ⟨_, _, rfl⟩

end PageMeta.Builder
