import PageMeta.Proofs.AttributeMap.Data
import PageMeta.Proofs.Builder.History
import PageMeta.Proofs.Builder.Output
import PageMeta.Proofs.Object.Simple

/-!
# Builders of simple data

A builder that is used with simple data has simple data in its buffer, and builds simple data.  What a
field works out of simple data is simple, whatever the field is; what a block builds is a copy of such a
buffer; and what is merged may be an attribute map, since its entries are written out before they are
stored.

## Key results

- `FilesOnly.simpleKept`: filing simple values keeps simple data
- `fieldValue_simple`: what a declared field works out of simple data
- `merge_simple`: merging simple data, an attribute map, or another builder
- `History.holdsSimple`: the buffer of a builder after any history with simple data
- `build_simple`: what a builder with such a history builds
-/

namespace PageMeta.Builder

open Heap (Extends Agree SimpleKept isPrivate)

variable {κ : Type} {call : Caller κ} {routine : Nat → Value → Action κ Unit} {kind : BuilderKind}
  {b : Value} {w w' : World κ} {c : Cells} {h h' : Heap} {v : Value} {name : String}
  {ws : List (String × Value)}

/-- Where a builder stands whose buffer has nothing but simple data. -/
structure HoldsSimple (h : Heap) (kind : BuilderKind) (c : Cells) : Prop extends Intact h kind c where
  simple : h.SimpleAt c.buffer

theorem HoldsSimple.of_extends (hb : HoldsSimple h kind c) (he : Extends h h') :
    HoldsSimple h' kind c := ⟨hb.toIntact.of_extends he, hb.simple.extends he⟩

/-- A builder holds simple data as long as all that it leads to stays as it is. -/
theorem HoldsSimple.agree (hb : HoldsSimple h kind c) (ha : Agree (Part h c) h h') :
    HoldsSimple h' kind c := by
  refine ⟨hb.toIntact.agree ha, hb.simple.agree (ha.mono fun r hr => ?_)⟩
  exact ⟨hb.part.2.2.1.trans hr, hb.simple.pure.there r hr⟩

/-- A new builder holds nothing. -/
theorem create_holdsSimple (hcreate : create kind h = .ok b h') :
    ∃ c : Cells, b = .ref c.builder ∧ HoldsSimple h' kind c := by
  obtain ⟨c, h₁, hrun, -, hb, -⟩ := create_intact kind h
  rw [hcreate] at hrun
  cases hrun
  have hread := (bare_of_create hcreate hb.toPlaced).buffer
  refine ⟨c, rfl, hb, Heap.simple_of_closed (P := (· = c.buffer)) (fun v hv => ?_) ?_⟩
  · rw [List.mem_singleton.mp hv]
    exact ⟨rfl, Heap.held_ref rfl⟩
  · rintro r rfl
    exact ⟨_, hread, rfl, fun _ hs => absurd hs List.not_mem_nil⟩

/-! ### Filing -/

/-- What a builder files is simple if all that it has filed and what is written is simple. -/
theorem FilesOnly.simpleEntries (hf : FilesOnly kind c ws h h') (hb : HoldsSimple h kind c)
    (hws : ∀ p ∈ ws, h.Simple [p.2]) : h.SimpleEntries (h'.entriesAt c.buffer) := by
  obtain ⟨es, hread⟩ := hb.buffer
  obtain ⟨es', hread'⟩ := hf.intact.buffer
  have hes := hb.simple.entries hread
  intro p hp
  -- a key is an old one or was made for a field, and a value is an old one or was written
  constructor
  · rcases hf.keys p.1 (List.mem_map_of_mem hp) with hold | hmade
    · rw [Heap.entriesAt_dict hread] at hold
      obtain ⟨q, hq, heq⟩ := List.mem_map.mp hold
      exact heq ▸ (hes q hq).1
    · rw [Heap.entriesAt_dict hread'] at hp
      obtain ⟨_, hk⟩ := hf.intact.texts es' hread' p hp
      exact Key.isScalar_of_text? hk hmade
  · have hvalue : p.2 ∈ Entries.values (filed h' c) :=
      List.mem_map.mpr ⟨(h'.keyText p.1, p.2), List.mem_map.mpr ⟨p, hp, rfl⟩, rfl⟩
    rw [hf.filed_eq] at hvalue
    rcases Entries.mem_values_putAll hvalue with hold | hnew
    · rw [filed, Heap.entriesAt_dict hread] at hold
      obtain ⟨q, hq, heq⟩ := List.mem_map.mp hold
      obtain ⟨q', hq', rfl⟩ := List.mem_map.mp hq
      exact heq ▸ (hes q' hq').2
    · obtain ⟨q, hq, heq⟩ := List.mem_map.mp hnew
      exact heq ▸ hws q hq

/-- Filing simple values keeps simple data. -/
theorem FilesOnly.simpleKept (hf : FilesOnly kind c ws h h') (hb : HoldsSimple h kind c)
    (hws : ∀ p ∈ ws, h.Simple [p.2]) : SimpleKept h h' := by
  intro r hr
  -- only the buffer was written, so all other simple data lead to what they led to
  refine Heap.simple_of_closed (P := h.SimpleAt) (fun v hv => ?_) fun t ht => ?_
  · rw [List.mem_singleton.mp hv]
    exact ⟨rfl, Heap.held_ref hr⟩
  · by_cases heq : t = c.buffer
    · obtain ⟨es', hread'⟩ := hf.intact.buffer
      have hes' := hf.simpleEntries hb hws
      rw [Heap.entriesAt_dict hread'] at hes'
      exact ⟨.dict es', heq ▸ hread', hes'.cell.1, hes'.cell.2⟩
    · obtain ⟨cell, hcell, hsimple, hheld⟩ := ht.cell
      exact ⟨cell, (hf.agree.read_eq t ⟨heq, Heap.lt_size_of_read hcell⟩).trans hcell, hsimple, hheld⟩

theorem FilesOnly.holdsSimple (hf : FilesOnly kind c ws h h') (hb : HoldsSimple h kind c)
    (hws : ∀ p ∈ ws, h.Simple [p.2]) : HoldsSimple h' kind c :=
  ⟨hf.intact, hf.simpleKept hb hws _ hb.simple⟩

/-! ### Fields -/

/-- A later world with new cells, in which a value that is to be filed is simple. -/
def WorksOut (w : World κ) (v? : Option Value) (w' : World κ) : Prop :=
  Extends w.heap w'.heap ∧ ∀ v, v? = some v → w'.heap.Simple [v]

theorem worksOut_present (hv : w.heap.Simple [v]) : WorksOut w (present? v) w :=
  ⟨.refl _ _, fun u hu => by cases v <;> cases hu <;> exact hv⟩

/-- A new dictionary of simple data. -/
theorem newDict_worksOut {es : Entries Key Value} (hes : w.heap.SimpleEntries es) :
    Outcome (do return some (← Action.onHeap (Heap.newDict es)) : Action κ (Option Value)) w
      (WorksOut w) fun _ => True := by
  refine Outcome.bind (Outcome.onHeap ?_)
  exact ⟨Heap.extends_push _ _, fun u hu => Option.some.inj hu ▸ Heap.newDict_simple hes⟩

/-- What a field for platforms works out of simple data. -/
theorem platformValue_simple (call : Caller κ) (hb : HoldsSimple w.heap kind c) {key platform : Value}
    (hv : w.heap.Simple [v]) (hplatform : w.heap.Simple [platform]) :
    Outcome (platformValue call (.ref c.builder) key v platform) w (WorksOut w) fun _ => True := by
  unfold platformValue
  split
  · exact ⟨.refl _ _, fun _ hu => by cases hu⟩
  · refine newDict_worksOut (Heap.simpleEntries_textKeys fun p hp => ?_)
    obtain ⟨_, -, rfl⟩ := List.mem_map.mp hp
    exact hv
  · refine Outcome.bind (Outcome.of_ok (readFrom_ok call hb.toPlaced key) (Outcome.get_bind ?_))
    -- whatever entries the new dictionary starts with, they are simple
    have hstart : ∀ (entries : Entries Key Value) (w₁ : World κ), Extends w.heap w₁.heap →
        w₁.heap.SimpleEntries entries → Outcome (do
          let k ← Action.ask fun h => h.toKey platform
          return some (← Action.onHeap (Heap.newDict ((Entries.ofList entries).put k v))))
          w₁ (WorksOut w) fun _ => True := by
      intro entries w₁ he hes
      refine Outcome.bind (Outcome.onHeap (Outcome.ask (fun k hk => ?_) trivial))
      have hentries := (Heap.SimpleEntries.nil w₁.heap).putAll hes
      refine (newDict_worksOut (hentries.put (Heap.toKey_simple (hplatform.extends he) hk)
        (hv.extends he))).mono (fun _ _ hw => ⟨he.trans hw.1, hw.2⟩) fun _ => id
    split
    · have hold : w.heap.Simple [stored w.heap c (w.heap.nameKey key)] := by
        obtain ⟨es, hread⟩ := hb.buffer
        rw [stored, Heap.entriesAt_dict hread]
        exact (hb.simple.entries hread).get?_getD _
      exact Outcome.bind ((Heap.updateEntries_simple call hold).mono
        (fun entries w₁ hw => hstart entries w₁ hw.1 hw.2) fun _ => id)
    · exact hstart [] w (.refl _ _) (Heap.SimpleEntries.nil _)

/-- A handle is a text, or absent. -/
theorem isAtom_handle (h : Heap) (v : Value) : (handle h v).isAtom = true := by
  unfold handle
  split
  · rfl
  · split <;> rfl
  · rfl

/-- What a declared field works out of simple data is simple, and nothing but new cells is made. -/
theorem fieldValue_simple (call : Caller κ) (hb : HoldsSimple w.heap kind c) {rule : FieldRule}
    {bound : Bound} (hon : bound.On (.ref c.builder) fun v => w.heap.Simple [v])
    (hkeys : ∀ p ∈ bound.options, p.1.isScalar = true) :
    Outcome (fieldValue call (.ref c.builder) name rule bound) w (WorksOut w) fun _ => True := by
  obtain ⟨values, hvalues, hsimple⟩ := hon.values
  unfold fieldValue
  rw [hvalues]
  split
  · rename_i first v heq
    cases heq
    exact worksOut_present (hsimple v List.mem_cons_self)
  · -- a handle is a text, whatever it is made of
    rename_i first v heq
    refine Outcome.get_bind (Outcome.bind (Outcome.onHeap ?_))
    refine (Heap.settle_scalar _ (isAtom_handle w.heap v)).mono (fun u h₁ hu => ?_) fun _ => False.elim
    have hpresent : WorksOut { w with heap := h₁ } (present? u) { w with heap := h₁ } :=
      worksOut_present (Heap.simple_of_isScalar h₁ hu.2)
    exact ⟨Heap.extends_of_cells hu.1, hpresent.2⟩
  · split
    · exact ⟨.refl _ _, fun _ hu => by cases hu⟩
    · refine Outcome.bind (Outcome.onHeap (Outcome.ask (fun flat hflat => ?_) trivial))
      have hleaves := Heap.flatten_simple (Heap.simple_iff.mpr hon.rest) hflat
      exact ⟨Heap.extends_push _ _, fun u hu => Option.some.inj hu ▸ Heap.newList_simple hleaves⟩
  · rename_i first index follow heq
    cases heq
    obtain ⟨hindex, hfollow⟩ := List.forall_mem_cons.mp hsimple
    have hown : w.heap.SimpleEntries (Heap.textKeys [("index", index), ("follow", follow)]) :=
      Heap.simpleEntries_textKeys (List.forall_mem_cons.mpr ⟨hindex, List.forall_mem_cons.mpr
        ⟨hfollow follow List.mem_cons_self, fun _ hp => absurd hp List.not_mem_nil⟩⟩)
    exact newDict_worksOut (hown.putAll fun p hp => ⟨hkeys p hp, hon.options p hp⟩)
  · rename_i first v heq
    cases heq
    exact ⟨.refl _ _, fun u hu => Option.some.inj hu ▸ hsimple v List.mem_cons_self⟩
  · exact ⟨.refl _ _, fun _ hu => by cases hu⟩
  · rename_i first v platform heq
    cases heq
    obtain ⟨hv, hplatform⟩ := List.forall_mem_cons.mp hsimple
    exact platformValue_simple call hb hv (hplatform platform List.mem_cons_self)
  · trivial

/-! ### Merging -/

/-- Whether a value can be merged into a builder of simple data: it is simple, or an attribute map of
data, or a builder of simple data. -/
def Mergeable (h : Heap) (v : Value) : Prop :=
  h.Simple [v] ∨ (h.Sound ∧ h.isMap v = true ∧ h.Pure [v]) ∨
    ∃ kind, ∃ d : Cells, v = .ref d.builder ∧ Placed h kind d ∧ h.SimpleAt d.buffer

/-- What merging goes through is simple: a map is written out, and the buffer of a builder is copied. -/
theorem mergeSource_simple (hm : Mergeable h v) :
    Outcome (mergeSource v) h (fun source h' => Extends h h' ∧ h'.Simple [source]) fun _ => True := by
  refine Outcome.get_bind ?_
  rcases hm with hsimple | ⟨hs, hmap, hpure⟩ | ⟨kind, d, rfl, hp, hbuffer⟩
  · rcases hsimple.cases with hscalar | ⟨r, items, rfl, hread, -⟩ | ⟨r, es, rfl, hread, -⟩
    · cases v <;> first | exact ⟨.refl _ _, hsimple⟩ | cases hscalar
    · simp only [Heap.cell?, hread]
      exact ⟨.refl _ _, hsimple⟩
    · simp only [Heap.cell?, hread]
      exact ⟨.refl _ _, hsimple⟩
  · cases v with
    | ref m =>
      obtain ⟨data, hread⟩ := Heap.read_of_isMap hmap
      simp only [Heap.cell?, hread]
      exact (Heap.unwrap_simple hs hpure hmap).mono (fun _ _ => id) fun _ _ => trivial
    | _ => cases hmap
  · obtain ⟨r, h₁, hrun, hh⟩ := toDict_handed hp hbuffer.pure
    simp only [Heap.cell?, hp.builder]
    exact Outcome.of_ok hrun ⟨hh.later, hbuffer.copy hh.copies⟩

/-- Storing what a simple dictionary has under some of its keys, even if it is the buffer. -/
theorem storeKeys_simple {source : Ref} {size : Nat} : ∀ (keys : List Key) {h : Heap},
    HoldsSimple h kind c → h.SimpleAt source → (∃ es, h.read source = some (.dict es)) →
    Outcome (Heap.forEntries (storeKey (.ref c.builder)) source size keys) h
      (fun _ h' => HoldsSimple h' kind c) fun _ => True
  | [], _, hb, _, _ => hb
  | key :: rest, h, hb, hs, ⟨es, hread⟩ => by
    refine Outcome.get_bind ?_
    rw [Heap.entriesAt_dict hread]
    obtain ⟨v, hv⟩ : ∃ v, (es.get? key).getD .none = v := ⟨_, rfl⟩
    have hsimple : h.Simple [v] := hv ▸ (hs.entries hread).get?_getD key
    rw [hv]
    obtain ⟨h₁, hrun, hf⟩ := putAt_files hb.toIntact (Heap.text?_keyName key) v
    have hvisit : storeKey (.ref c.builder) key v h = .ok () h₁ :=
      (run_bind_ok run_get).trans (run_discard_ok hrun)
    have hwritten : ∀ p ∈ [(h.keyText key, v)], h.Simple [p.2] := fun p hp =>
      List.mem_singleton.mp hp ▸ hsimple
    refine Outcome.bind (Outcome.of_ok hvisit (Outcome.get_bind ?_))
    split
    · -- what is gone through is still a dictionary, whether it is the buffer or not
      have hread₁ : ∃ es, h₁.read source = some (.dict es) := by
        by_cases heq : source = c.buffer
        · rw [heq]
          exact hf.intact.buffer
        · exact ⟨es, (hf.agree.read_eq _ ⟨heq, Heap.lt_size_of_read hread⟩).trans hread⟩
      exact storeKeys_simple rest (hf.holdsSimple hb hwritten)
        (hf.simpleKept hb hwritten source hs) hread₁
    · trivial

/-- A builder of simple data still is one after a merge. -/
theorem merge_simple (hb : HoldsSimple h kind c) (hm : Mergeable h v) :
    Outcome (merge (.ref c.builder) v) h (fun _ h' => HoldsSimple h' kind c) fun _ => True := by
  refine Outcome.bind ((mergeSource_simple hm).mono (fun source h₁ hsource => ?_) fun _ => id)
  refine Outcome.get_bind ?_
  split
  · rename_i r hmapping
    obtain ⟨rfl, es, hread, -⟩ := hsource.2.dict_of_mapping? hmapping
    refine Outcome.bind (Outcome.bind (Outcome.ask (fun entries _ => ?_) trivial))
    exact (storeKeys_simple _ (hb.of_extends hsource.1) hsource.2 ⟨es, hread⟩).mono
      (fun _ _ => id) fun _ => id
  · trivial

/-- Sending a builder of simple data `merge`. -/
theorem send_merge_simple {args : Arguments} (hb : HoldsSimple w.heap kind c)
    (hm : Mergeable w.heap v)
    (hbind : (Object.signature (.builder .plain) "merge").bind (args.after (.ref c.builder)) =
      .ok ⟨[.ref c.builder, v], [], [], []⟩) :
    Outcome (Object.send (Object.invoke call routine) (.ref c.builder) "merge" args) w
      (fun _ w' => HoldsSimple w'.heap kind c) fun _ => True := by
  rw [Outcome, send_common hb.toIntact (by decide) hbind]
  refine Outcome.bind (Outcome.onHeap ((merge_simple hb hm).mono (fun result h₁ hb₁ => ?_) fun _ => id))
  exact Outcome.onHeap ((Heap.settle_extends result h₁).mono (fun _ _ he => hb₁.of_extends he)
    fun _ => id)

/-! ### Histories -/

/-- The terms on which a builder is used with simple data: what is handed in is simple, what is merged is
simple, an attribute map or a builder of simple data, nothing that the builder leads to is changed beside
its uses, and the same holds of the builders that blocks fill. -/
def Terms.simple : Terms where
  given h v := h.Simple [v]
  merged := Mergeable
  beside c h h' := Agree (Part h c) h h'
  filled := True

/-- What another builder of simple data builds is simple. -/
theorem build_holdsSimple (hb : HoldsSimple w.heap kind c)
    (hrun : build call (.ref c.builder) w = .ok v w') :
    Extends w.heap w'.heap ∧ w'.heap.Simple [v] := by
  obtain ⟨-, r, w₁, hbuild, hh⟩ | ⟨-, e, hbuild⟩ := build_cases call hb.toPlaced hb.simple.pure
  · rw [hbuild] at hrun
    cases hrun
    exact ⟨hh.later, hb.simple.copy hh.copies⟩
  · rw [hbuild] at hrun
    cases hrun

/-- A builder of the same class holds nothing when it is made. -/
theorem another_holdsSimple {child : Value} (hp : Placed w.heap kind c)
    (hanother : another call (.ref c.builder) w = .ok child w') :
    ∃ d : Cells, child = .ref d.builder ∧ HoldsSimple w'.heap kind d := by
  obtain ⟨d, h', hcreate, -⟩ := create_intact kind w.heap
  rw [another_eq call hp, run_onHeap_ok hcreate] at hanother
  cases hanother
  exact create_holdsSimple hcreate

/-- What a declared field has by default is a scalar. -/
theorem fieldSignature_scalars (function : String) (rule : FieldRule) :
    (Object.fieldSignature function rule).Defaults fun v => v.isScalar = true := by
  cases rule <;>
    simp [Object.fieldSignature, Object.receiver, Object.optional, Object.option,
      Parameter.required, Parameter.optional, Signature.Defaults, Value.ofText, Value.isScalar,
      Value.isAtom, Value.isMade]

/-- What a declared field gets that is called with simple data. -/
theorem bound_simple {name : Name} {rule : FieldRule} {args : Arguments} {bound : Bound}
    (hrule : kind.field? name.text = some rule) (hargs : args.All fun v => h.Simple [v])
    (hnames : ∀ p ∈ args.named, h.Simple [p.1.value])
    (hbind : (Object.signature (.builder kind) name.text).bind (args.after b) = .ok bound) :
    (bound.On b fun v => h.Simple [v]) ∧ ∀ p ∈ bound.options, p.1.isScalar = true := by
  have hdeclared : (kind.field? name.text).isSome = true :=
    Option.isSome_iff_exists.mpr ⟨rule, hrule⟩
  constructor
  · obtain ⟨others, hparams, hself⟩ := signature_receiver (.inl hdeclared)
    refine Signature.bind_after hparams hself (fun p hp u hu => ?_) (Heap.simple_of_isScalar h rfl)
      hargs hbind
    rw [signature_field hrule] at hp
    exact Heap.simple_of_isScalar h (fieldSignature_scalars _ rule p hp u hu)
  · intro p hp
    obtain ⟨q, hq, heq⟩ := Signature.bind_options hbind p hp
    rw [heq]
    exact (hnames q hq).values _ List.mem_cons_self

/-- A builder of simple data stays one in the course of a history with simple data. -/
theorem History.holdsSimple (hw : History .simple call routine kind b w ws w') :
    ∀ {c : Cells}, b = .ref c.builder → HoldsSimple w.heap kind c → HoldsSimple w'.heap kind c := by
  induction hw with
  | start => exact fun _ hb => hb
  | other _ hsame ih =>
    intro c hbuilder hb
    have hb₁ := ih hbuilder hb
    obtain ⟨hbeside, -⟩ := hsame c hbuilder hb₁.toPlaced
    exact hb₁.agree hbeside
  | set _ hgiven hbind hrun ih =>
    rintro c rfl hb
    have hb₁ := ih rfl hb
    have hf := heap_of_run ⟨_, send_set hb₁.toIntact hbind⟩ hrun
    exact hf.holdsSimple hb₁ (List.forall_mem_singleton.mpr hgiven)
  | assign _ hgiven hpublic hrun ih =>
    rintro c rfl hb
    have hb₁ := ih rfl hb
    have hf := heap_of_run ⟨_, assign_files _ hb₁.toIntact hpublic _⟩ hrun
    exact hf.holdsSimple hb₁ (List.forall_mem_singleton.mpr hgiven)
  | dynamic _ hgiven hread hbind hrun ih =>
    rintro c rfl hb
    have hb₁ := ih rfl hb
    have hf := heap_of_run ⟨_, call_field_value hb₁.toIntact hread hbind⟩ hrun
    exact hf.holdsSimple hb₁ (List.forall_mem_singleton.mpr hgiven)
  | field _ hargs hnames hrule hbind hvalue _ hrun ih _ =>
    rintro c rfl hb
    have hb₁ := ih rfl hb
    obtain ⟨hon, hkeys⟩ := bound_simple hrule hargs hnames hbind
    -- working out the value makes new cells only, so the client's part of the history is empty
    obtain ⟨he, hsimple⟩ := (fieldValue_simple _ hb₁ hon hkeys).result hvalue
    have hb₂ := hb₁.of_extends he
    have hf := heap_of_run (send_field_files hb₁.toIntact hrule hbind hb₂.toIntact hvalue) hrun
    refine hf.holdsSimple hb₂ fun p hp => ?_
    obtain ⟨v, hv, rfl⟩ := List.mem_map.mp hp
    exact hsimple v (Option.mem_toList.mp hv)
  | article _ hblock hbind hcreate heval _ _ hbuild _ hrun ih ihchild ih₂ ih₃ =>
    rintro c rfl hb
    have hb₁ := ih rfl hb
    obtain ⟨d, rfl, hd⟩ := create_holdsSimple hcreate
    have hd₂ := ihchild trivial rfl hd
    have hb₃ := ih₃ rfl (ih₂ rfl hb₁)
    have hresult := (build_holdsSimple hd₂ hbuild).2
    have hf := article_files hb₁.toIntact hblock hbind hcreate heval hbuild hb₃.toIntact hrun
    exact hf.holdsSimple hb₃ (List.forall_mem_singleton.mpr hresult)
  | nested _ hbind hanother hfill _ _ hfinish _ hrun ih ihchild ih₂ ih₃ =>
    rintro c rfl hb
    have hb₁ := ih rfl hb
    obtain ⟨d, rfl, hd⟩ := another_holdsSimple hb₁.toPlaced hanother
    have hd₂ := ihchild trivial rfl hd
    have hb₂ := ih₂ rfl hb₁
    have hb₃ := ih₃ rfl hb₂
    have hresult := (build_holdsSimple hd₂ ((finish_eq _ hd₂.toPlaced).symm.trans hfinish)).2
    have hf := nested_files hb₁.toIntact hbind hanother hfill hb₂.toPlaced hfinish hb₃.toIntact hrun
    exact hf.holdsSimple hb₃ (List.forall_mem_singleton.mpr hresult)
  | merge _ hmerged hbind hrun ih =>
    rintro c rfl hb
    have hb₁ := ih rfl hb
    exact (send_merge_simple hb₁ hmerged hbind).result hrun

/-- Whatever the history of a builder with simple data, what it builds without complaint is a new
dictionary of simple data: it leads to lists, dictionaries with scalars as keys and scalars, and to no
attribute map.  Attribute maps come in by being merged themselves. -/
theorem build_simple {u : Value} {w₀ : World κ} {h₀ h₁ : Heap}
    (hcreate : create kind w₀.heap = .ok b h₀)
    (hw : History .simple call routine kind b { w₀ with heap := h₀ } ws w)
    (hvalid : validate kind b w.heap = .ok u h₁) :
    ∃ r w', Object.send (Object.invoke call routine) b "build" {} w = .ok (.ref r) w' ∧
      w.heap.size ≤ r.index ∧ (∃ es, w'.heap.read r = some (.dict es)) ∧ w'.heap.Simple [.ref r] := by
  obtain ⟨c, rfl, hb₀⟩ := create_holdsSimple hcreate
  have hb := hw.holdsSimple rfl hb₀
  have hbind : (Object.signature (.builder .plain) "build").bind
      (({} : Arguments).after (.ref c.builder)) = .ok ⟨[.ref c.builder], [], [], []⟩ := rfl
  have hsend : Object.send (Object.invoke call routine) (.ref c.builder) "build" {} w = (do
      let result ← build call (.ref c.builder)
      Action.onHeap (Heap.settle result)) w := send_common hb.toIntact (by decide) hbind
  obtain ⟨-, r, w', hbuild, hh⟩ | ⟨hflaw, -⟩ := build_cases call hb.toPlaced hb.simple.pure
  · have hnew : w.heap.size ≤ r.index := by
      -- the buffer is no tuple, so its copy is a new cell
      rcases hh.apart r (Heap.leads_self r) with hnew | ⟨items, hitems⟩
      · exact hnew
      · obtain ⟨es, hread⟩ := hh.dict hb.toPlaced
        rw [hh.later.read_of_some hitems] at hread
        cases hread
    refine ⟨r, w', ?_, hnew, hh.dict hb.toPlaced, hb.simple.copy hh.copies⟩
    rw [hsend]
    exact (run_bind_ok hbuild).trans (Object.run_settle rfl)
  · obtain ⟨e, hrefused⟩ := validate_not_flawless hflaw
    rw [hrefused] at hvalid
    cases hvalid

/-- An attribute map that is stored itself is copied as an attribute map. -/
theorem Handed.isMap {r m : Ref} {key : Key} (hh : Handed h c r h') (hb : Intact h kind c)
    (hmem : (key, .ref m) ∈ h.entriesAt c.buffer) (hmap : h.isMap (.ref m) = true) :
    ∃ m', (key, .ref m') ∈ h'.entriesAt r ∧ h'.isMap (.ref m') = true := by
  obtain ⟨f, heq, -, hcopied⟩ := hh.copies
  obtain ⟨es, hread⟩ := hb.buffer
  rw [Heap.entriesAt_dict hread] at hmem
  have hself := Heap.leads_self (h := h) c.buffer
  have hleads : h.Leads [.ref c.buffer] m :=
    hself.step hread (List.mem_flatMap.mpr ⟨_, hmem, List.mem_append_right _ List.mem_cons_self⟩)
  obtain ⟨data, hdata⟩ := Heap.read_of_isMap hmap
  have hkey : key.mapValues (Value.rename f) = key := by
    obtain ⟨_, hk⟩ := hb.texts es hread _ hmem
    cases key with
    | atom v => cases v <;> first | rfl | cases hk
    | tuple s items => cases hk
  have hcopy := hcopied c.buffer _ hself hread
  rw [← Value.ref.inj heq] at hcopy
  refine ⟨f m, ?_, Heap.isMap_of_read (hcopied m _ hleads hdata)⟩
  rw [Heap.entriesAt_dict hcopy]
  exact List.mem_map.mpr ⟨_, hmem, by rw [hkey]; rfl⟩

/-! ### A builder that merges a map -/

section Merging

/-- A dictionary with a dictionary in it. -/
def imageHeap : Heap :=
  ((newBuilder .plain).heap.push (.dict (Heap.textKeys [("width", .ofInt 1200)]))).push
    (.dict (Heap.textKeys [("image", .ref ⟨3⟩)]))

/-- The world with a new builder and an attribute map with an attribute map in it. -/
def mappedWorld : World Unit :=
  { newBuilder .plain with heap := stateAfter (AttributeMap.create (.ref ⟨4⟩)) imageHeap }

/-- The world after the map was merged into the builder. -/
def mergedWorld : World Unit :=
  stateAfter (Object.send (Object.invoke noCaller noRoutine) (.ref ⟨2⟩) "merge" (.of [.ref ⟨8⟩]))
    mappedWorld

theorem extends_imageHeap : Extends (newBuilder .plain).heap imageHeap :=
  (Heap.extends_push _ _).trans (Heap.extends_push _ _)

theorem simple_imageHeap : imageHeap.Simple [.ref ⟨4⟩] := by
  have hinner : ((newBuilder .plain).heap.push (.dict (Heap.textKeys [("width", .ofInt 1200)]))).Simple
      [.ref ⟨3⟩] :=
    Heap.newDict_simple (Heap.simpleEntries_textKeys fun p hp => by
      rw [List.mem_singleton.mp hp]
      exact Heap.simple_of_isScalar _ rfl)
  exact Heap.newDict_simple (Heap.simpleEntries_textKeys fun p hp => by
    rw [List.mem_singleton.mp hp]
    exact hinner)

theorem sound_imageHeap : imageHeap.Sound := by
  have hsize : imageHeap.size = 5 := rfl
  have hcells : imageHeap.cells = #[.dict [], .dict (Heap.textKeys [("_config", .ref ⟨0⟩)]),
    .builder .plain ⟨1⟩, .dict (Heap.textKeys [("width", .ofInt 1200)]),
    .dict (Heap.textKeys [("image", .ref ⟨3⟩)])] := rfl
  refine AttributeMap.sound_of_arguments fun r cell _ hread => ?_
  have hmem : cell ∈ imageHeap.cells := Array.mem_of_getElem? hread
  simp only [hcells, List.mem_toArray, List.mem_cons, List.not_mem_nil, or_false] at hmem
  rcases hmem with rfl | rfl | rfl | rfl | rfl <;>
    simp [Heap.FineCell, Heap.Fine, Entries.Apart, Heap.textKeys, Value.isMade, Value.ofInt, hsize]

/-- Making the map leaves the builder alone, and the map is data. -/
theorem mappedWorld_facts : Extends (newBuilder .plain).heap mappedWorld.heap ∧
    mappedWorld.heap.Sound ∧ mappedWorld.heap.Pure [.ref ⟨8⟩] := by
  have hfine : imageHeap.Fine (.ref ⟨4⟩) := ⟨rfl, fun r heq => by cases heq; decide⟩
  have hrun : AttributeMap.create (.ref ⟨4⟩) imageHeap = .ok (.ref ⟨8⟩) mappedWorld.heap := rfl
  have hmade := (AttributeMap.create_data sound_imageHeap simple_imageHeap.pure).result hrun
  have hsound := (AttributeMap.create_outcome sound_imageHeap hfine).result hrun
  exact ⟨extends_imageHeap.trans hmade.1, hsound.sound, hmade.2⟩

theorem build_simple_merged : ∃ r w',
    Object.send (Object.invoke noCaller noRoutine) (.ref ⟨2⟩) "build" {} mergedWorld =
      .ok (.ref r) w' ∧ w'.heap.Simple [.ref r] := by
  obtain ⟨he, hsound, hpure⟩ := mappedWorld_facts
  have hcreate : create .plain voidWorld.heap = .ok (.ref ⟨2⟩) (newBuilder .plain).heap := rfl
  have hmerge : Object.send (Object.invoke noCaller noRoutine) (.ref ⟨2⟩) "merge" (.of [.ref ⟨8⟩])
      mappedWorld = .ok (.ref ⟨2⟩) mergedWorld := rfl
  have hmapped : History .simple noCaller noRoutine .plain (.ref ⟨2⟩) (newBuilder .plain) []
      mappedWorld := by
    refine .other .start fun c hc hp => ⟨Part.agree he, fun r hr => he.read_eq r ?_⟩
    obtain ⟨hbuilder, hattributes, hbuffer⟩ := hp.part
    simp only [List.mem_cons, List.not_mem_nil, or_false] at hr
    rcases hr with rfl | rfl | rfl
    · exact hbuilder.2
    · exact hattributes.2
    · exact hbuffer.2
  have hmerged := History.merge hmapped (.inr (.inl ⟨hsound, rfl, hpure⟩)) rfl hmerge
  obtain ⟨r, w', hbuild, -, -, hsimple⟩ := build_simple hcreate hmerged rfl
  exact ⟨r, w', hbuild, hsimple⟩

end Merging

end PageMeta.Builder
