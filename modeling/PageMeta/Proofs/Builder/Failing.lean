import PageMeta.Proofs.Builder.Atomic
import PageMeta.Proofs.Builder.Blocks
import PageMeta.Proofs.Builder.InUse

/-!
# Operations that fail

Whatever function of a builder is called, declared or not, with whatever arguments: if the call fails,
the builder and all that its buffer leads to is as it was.

## Key results

- `Considerate`: what is asked of the client's code that a call comes to
- `operation_atomic`: whatever is called under a public name, it is all or nothing
- `Reached.intact`: however a builder is used, it is one of which that holds
- `failed_unchanged`: calls that fail
-/

namespace PageMeta.Builder

open Heap (Extends Agree isPrivate)

variable {κ : Type} {h : Heap} {call : Caller κ} {routine : Nat → Value → Action κ Unit} {w : World κ}
  {kind owner : BuilderKind} {c : Cells} {name : String} {args : Arguments}

/-! ### What is called -/

/-- The functions under public names that all builders have. -/
def publicFunctions : List String :=
  ["set", "get", "nested", "evaluate", "validate", "build", "build_model", "to_dict", "merge"]

/-- A public name of a function leads to a declared field of the class, or to a function that all
builders have. -/
theorem definer_cases {cls : ClassName} (hpublic : isPrivate name = false)
    (hd : (ClassName.builder kind).definer? name = some cls) :
    ∃ owner, cls = .builder owner ∧ ((owner = kind ∧ (kind.field? name).isSome = true) ∨
      (owner.field? name = none ∧ name ∈ publicFunctions)) := by
  have hfacts : ∀ kind, ∀ cls ∈ (ClassName.builder kind).searchOrder, ∀ name ∈ cls.ownFunctions,
      isPrivate name = true ∨ (cls = .builder kind ∧ (kind.field? name).isSome = true) ∨
        (cls = .builder .plain ∧ name ∈ publicFunctions) ∨
        (cls = .builder kind ∧ kind.field? name = none ∧ name ∈ publicFunctions) := by
    intro kind
    cases kind <;> decide +kernel
  have hmem := List.mem_of_find?_eq_some hd
  have hname := List.find?_some hd
  rcases hfacts kind cls hmem name (by simpa using hname) with hp | ⟨rfl, hf⟩ | ⟨rfl, hf⟩ | ⟨rfl, hf⟩
  · rw [hpublic] at hp
    cases hp
  · exact ⟨kind, rfl, .inl ⟨rfl, hf⟩⟩
  · exact ⟨.plain, rfl, .inr ⟨rfl, hf⟩⟩
  · exact ⟨kind, rfl, .inr hf⟩

/-- A field that a class declares is one of its functions. -/
theorem field?_undefined (hd : (ClassName.builder kind).definer? name = none) :
    kind.field? name = none := by
  have hfacts : ∀ kind, ∀ p ∈ BuilderKind.fields kind,
      (ClassName.builder kind).definer? p.1 ≠ none := by
    intro kind
    cases kind <;> decide +kernel
  refine Option.map_eq_none_iff.mpr (List.find?_eq_none.mpr fun p hp hname => ?_)
  obtain rfl : p.1 = name := by simpa using hname
  exact hfacts kind p hp hd

theorem nested_undeclared (kind : BuilderKind) : kind.field? "nested" ≠ some .article := by
  cases kind <;> decide +kernel

/-- The signature of what a name leads to on a builder. -/
def calledSignature (kind : BuilderKind) (name : String) : Signature :=
  match (ClassName.builder kind).definer? name with
  | some cls => Object.signature cls name
  | none => Object.signature .dynamicField "__call__"

/-- What a call passes as its block. -/
def blockOf (s : Signature) (bound : Bound) : Value :=
  (Entries.get? "block" (((s.parameters ++ s.named).map (·.name)).zip
    (bound.values ++ bound.named))).getD .none

/-- Whether a call on a builder passes a value as a block. -/
def Passes (kind : BuilderKind) (name : String) (args : Arguments) (block : Value) : Prop :=
  ∃ first bound, (calledSignature kind name).bind (args.after first) = .ok bound ∧
    blockOf (calledSignature kind name) bound = block

/-- The heap in which a call on a builder runs: the object for a field that the class does not declare
is made first. -/
def calledHeap (h : Heap) (kind : BuilderKind) (c : Cells) (name : Name) : Heap :=
  match (ClassName.builder kind).definer? name.text with
  | some _ => h
  | none => h.push (.field (.ref c.builder) name.value)

/-- The class of the builder that a block is to fill. -/
def childKind (kind : BuilderKind) (name : String) : BuilderKind :=
  if kind.field? name = some .article then .article else kind

/-- Whether the client's code that a call on a builder comes to leaves alone what the builder leads to:
the block that is passed, and what a stored value is asked for its keys by if it is to get a value for
one platform more. -/
structure Considerate (call : Caller κ) (kind : BuilderKind) (c : Cells) (w : World κ) (name : Name)
    (args : Arguments) : Prop where
  block : ∀ block, Passes kind name.text args block → block ≠ .none →
    Discreet call c w (calledHeap w.heap kind c name) (childKind kind name.text) block
  keys : kind.field? name.text = some .app →
    TellsKeys call c w (stored w.heap c (Key.ofText name.text))

/-! ### Declared functions -/

theorem useField_atomic (hb : Intact w.heap kind c) {rule : FieldRule}
    (hrule : kind.field? name = some rule) {bound : Bound}
    (hblock : ∀ first block, rule = .article → bound.values = [first, block] → block ≠ .none →
      Discreet call c w w.heap .article block)
    (hkeys : rule = .app → TellsKeys call c w (stored w.heap c (Key.ofText name))) :
    Atomic kind c w (useField call (.ref c.builder) name rule bound) := by
  unfold useField
  split
  · exact .of_ok (plainField_ok call hb name _)
  · exact Outcome.get_bind (Atomic.of_ok (handleField_ok call hb name _))
  · exact listField_atomic call hb _
  · exact .of_ok (storeNew_ok call hb _ _)
  · exact .of_ok (storeIn_ok call hb _ _)
  · rename_i block hvalues
    exact articleField_atomic hb (hblock _ block rfl hvalues)
  · obtain rfl := kind_of_app hrule
    exact appField_atomic hb (hkeys rfl) _ _
  · exact .throw _

theorem callOther_atomic (hb : Intact w.heap kind c) (hname : name ∈ publicFunctions)
    (hno : name ≠ "evaluate") (values : List Value)
    (hblock : ∀ key block, name = "nested" → values = [key, block] → block ≠ .none →
      Discreet call c w w.heap kind block) :
    Atomic kind c w (callOther call owner (.ref c.builder) name values) := by
  have hp := hb.toPlaced
  unfold callOther
  split
  · rename_i key value
    obtain ⟨h', hrun, hb'⟩ := set_intact hb key value
    exact .of_ok ⟨_, _, run_onHeap_ok hrun, hb'⟩
  · rename_i key
    exact .of_spares hb (.refl (by simp only [Action.ask, Action.onHeap, Heap.ask, fieldAt_ok hp]; rfl) rfl)
  · rename_i key block
    exact nested_atomic hb (Agree.refl _ _) key (hblock key block rfl rfl)
  · exact absurd rfl hno
  · exact .of_spares hb (validate_spares owner _ w)
  · exact .of_spares hb (build_spares call hp).part
  · exact .of_spares hb (buildRecord_spares call hp).part
  · exact .of_spares hb (Spares.onHeap (toDict_extends _ _)).part
  · rename_i other
    exact Outcome.onHeap ((merge_intact hb other).mono (fun _ _ hb' => hb') fun _ => Part.agree)
  -- the other names are private
  · exact absurd hname (by decide)
  · exact absurd hname (by decide)
  · exact absurd hname (by decide)
  · exact absurd hname (by decide)
  · exact absurd hname (by decide)
  · exact absurd hname (by decide)
  · exact .throw _

/-- The functions of builders take the builder first. -/
theorem signature_receiver
    (hname : (owner.field? name).isSome = true ∨ (owner.field? name = none ∧ name ∈ publicFunctions)) :
    ∃ others, (Object.signature (.builder owner) name).parameters = Object.receiver :: others ∧
      ∀ p ∈ others, (Object.receiver.name == p.name) = false := by
  rcases hname with hf | ⟨hf, hmem⟩
  · obtain ⟨rule, hrule⟩ := Option.isSome_iff_exists.mp hf
    obtain ⟨others, hparams, hself, -⟩ :=
      fieldSignature_receiver (h := .empty) ((ClassName.builder owner).name ++ "." ++ name) rule
    refine ⟨others, ?_, hself⟩
    rw [signature_field hrule, hparams]
  · refine ⟨Object.builderParameters name, by simp only [Object.signature, Object.builderSignature, hf],
      ?_⟩
    have hfacts : ∀ name ∈ publicFunctions, ∀ p ∈ Object.builderParameters name,
        (Object.receiver.name == p.name) = false := by decide +kernel
    exact hfacts name hmem

/-- Calling a function that the class of a builder has. -/
theorem method_atomic (hb : Intact w.heap kind c) {name : Name} {cls : ClassName}
    (hpublic : isPrivate name.text = false) (hno : name.text ≠ "evaluate")
    (hd : (ClassName.builder kind).definer? name.text = some cls)
    (hclient : Considerate call kind c w name args) :
    Atomic kind c w (Object.callFunction call cls name.text (args.after (.ref c.builder))) := by
  obtain ⟨owner, rfl, hcase⟩ := definer_cases hpublic hd
  have hsignature : calledSignature kind name.text = Object.signature (.builder owner) name.text := by
    simp only [calledSignature, hd]
  obtain ⟨others, hparams, hself⟩ := signature_receiver (hcase.imp (fun hf => hf.1 ▸ hf.2) id)
  refine Outcome.bind ?_
  rw [Object.bindArguments]
  split
  · rename_i bound hbind
    have hon : bound.On (.ref c.builder) fun _ => True :=
      Signature.bind_after hparams hself (fun _ _ _ _ => trivial) trivial
        ⟨fun _ _ => trivial, fun _ _ => trivial⟩ hbind
    obtain ⟨values, hvalues, -⟩ := hon.values
    have hlengths := Signature.bind_lengths hbind
    have hpasses : ∀ block, blockOf (Object.signature (.builder owner) name.text) bound = block →
        block ≠ .none → Discreet call c w w.heap (childKind kind name.text) block :=
      fun block hblock hne => by
        have hdiscreet := hclient.block block ⟨_, bound, hsignature ▸ hbind, hsignature ▸ hblock⟩ hne
        simpa only [calledHeap, hd] using hdiscreet
    show Atomic kind c w (callFunction call owner (bound.values.headD .none) name.text bound)
    rw [hvalues, callFunction]
    split
    · rename_i rule hrule
      -- a declared field is one of the class of the builder itself
      obtain ⟨rfl, -⟩ := hcase.resolve_right fun h => by simp [h.1] at hrule
      refine useField_atomic hb hrule (fun first block hr hvs hne => ?_) fun hr =>
        hclient.keys (hr ▸ hrule)
      subst hr
      have hnamed : bound.named = [] := by
        simpa [signature_field hrule, Object.fieldSignature] using hlengths.2
      have hdiscreet := hpasses block (by
        simp only [blockOf, signature_field hrule, Object.fieldSignature, hvs, hnamed]
        rfl) hne
      rwa [childKind, if_pos hrule] at hdiscreet
    · rename_i hrule
      obtain ⟨-, hmem⟩ := hcase.resolve_left fun h => by simp [← h.1, hrule] at h
      refine callOther_atomic hb hmem hno _ fun key block hn hvs hne => ?_
      rw [hn] at hrule hpasses hlengths
      have hnamed : bound.named = [] := by
        simpa [Object.signature, Object.builderSignature, hrule] using hlengths.2
      rw [hvalues] at hvs
      have hvs : bound.values = [.ref c.builder, key, block] := hvalues.trans (congrArg _ hvs)
      have hdiscreet := hpasses block (by
        simp only [blockOf, Object.signature, Object.builderSignature, hrule, hvs, hnamed]
        rfl) hne
      rwa [childKind, if_neg (nested_undeclared kind)] at hdiscreet
  · exact Agree.refl _ _

/-! ### Other fields -/

/-- Calling the field of a builder that its class does not declare. -/
theorem field_atomic (hb : Intact w.heap kind c) {name : Name}
    (hd : (ClassName.builder kind).definer? name.text = none)
    (hclient : Considerate call kind c w name args) :
    Outcome (Object.callFunction call .dynamicField "__call__" (args.after (.ref w.heap.next)))
      { w with heap := w.heap.push (.field (.ref c.builder) name.value) }
      (fun _ w' => Intact w'.heap kind c) fun w' => Agree (Part w.heap c) w.heap w'.heap := by
  have he := Heap.extends_push w.heap (.field (.ref c.builder) name.value)
  have hsignature : calledSignature kind name.text = Object.signature .dynamicField "__call__" := by
    simp only [calledSignature, hd]
  refine Outcome.bind ?_
  rw [Object.bindArguments]
  split
  · rename_i bound hbind
    -- the field takes itself and one named argument, the block; all other arguments are the rest
    have hon : bound.On (.ref w.heap.next) fun _ => True :=
      Signature.bind_after (show (Object.signature .dynamicField "__call__").parameters =
          [Object.receiver] from rfl) (fun _ hp => absurd hp List.not_mem_nil)
        (fun _ _ _ _ => trivial) trivial ⟨fun _ _ => trivial, fun _ _ => trivial⟩ hbind
    obtain ⟨values, hvalues, -⟩ := hon.values
    obtain ⟨hlength, hnamed⟩ := Signature.bind_lengths hbind
    obtain rfl : values = [] := by
      simpa [hvalues, Object.signature, Object.dynamicSignature] using hlength
    obtain ⟨block, hblock⟩ : ∃ block, bound.named = [block] := by
      simpa [Object.signature, Object.dynamicSignature, List.length_eq_one_iff] using hnamed
    have hcell : (w.heap.push (.field (.ref c.builder) name.value)).cell? (.ref w.heap.next) =
        some (.field (.ref c.builder) name.value) := Heap.read_alloc_new _ _
    show Outcome (callFieldFunction call (bound.values.headD .none) "__call__" bound) _ _ _
    refine Outcome.get_bind ?_
    simp only [hvalues, hblock, List.headD_cons, hcell]
    -- a block is run for a builder of the class, as the client was told to expect
    refine dynamicField_atomic hb he name.value bound.rest fun hne => ?_
    have hdiscreet := hclient.block block ⟨_, bound, hsignature ▸ hbind, by
      simp only [hsignature, blockOf, Object.signature, Object.dynamicSignature, hvalues, hblock]
      rfl⟩ hne
    rwa [calledHeap, hd, childKind, if_neg (by simp [field?_undefined hd])] at hdiscreet
  · exact Part.agree he

/-! ### Operations -/

/-- The classes of builders have no functions of their own under public names. -/
theorem classFunction?_public (kind : BuilderKind) (hpublic : isPrivate name = false) :
    Object.classFunction? (.builder kind) name = none := by
  have horder : ∀ kind, ∀ cls ∈ (ClassName.builder kind).searchOrder,
      cls ∈ [.builder kind, .builder .plain, .data "object"] := by
    intro kind
    cases kind <;> decide
  have hprivate : ∀ name ∈ Plain.classFunctions "object", isPrivate name = true := by decide +kernel
  rw [Object.classFunction?, Option.map_eq_none_iff, List.find?_eq_none]
  intro cls hcls
  have hmem := horder kind cls hcls
  simp only [List.mem_cons, List.not_mem_nil, or_false] at hmem
  rcases hmem with rfl | rfl | rfl
  · simp
  · simp
  · intro hname
    have hp := hprivate name (by simpa using hname)
    rw [hpublic] at hp
    cases hp

/-- What the classes of builders answer beside their functions under public names is their schema. -/
theorem builderFact?_public (kind : BuilderKind) (hpublic : isPrivate name = false)
    (hno : name ≠ "payload_model") : Object.builderFact? kind name = none := by
  have hprivate : ∀ text, isPrivate text = true → name ≠ text := fun text ht heq => by
    rw [heq, ht] at hpublic
    cases hpublic
  unfold Object.builderFact?
  split
  · exact absurd rfl hno
  · exact absurd rfl (hprivate _ (by decide +kernel))
  · exact absurd rfl (hprivate _ (by decide +kernel))
  · have hmodule := hprivate "__module__" (by decide +kernel)
    have hdoc := hprivate "__doc__" (by decide +kernel)
    simp [hmodule, hdoc]

/-- What a public name leads to on an intact builder: a function of its class or a field. -/
theorem lookup_operation (hb : Intact h kind c) (hpublic : isPrivate name = false)
    (hno : name ≠ "payload_model") :
    Object.lookup h (.ref c.builder) name =
      .ok (match (ClassName.builder kind).definer? name with
        | some cls => .method (.ref c.builder) cls name
        | none => .dynamic) := by
  have hp := hb.toPlaced
  have hplain := classFunction?_public kind hpublic
  have hfact := builderFact?_public kind hpublic hno
  have hprivate : ∀ text, isPrivate text = true → name ≠ text := fun text ht heq => by
    rw [heq, ht] at hpublic
    cases hpublic
  have hclass := hprivate "__class__" (by decide +kernel)
  have hhash := hprivate "__hash__" (by decide +kernel)
  have hdict := hprivate "__dict__" (by decide +kernel)
  cases hown : (ClassName.builder kind).definer? name with
  | some cls =>
    rw [lookup_method hp hplain hown (by simp [hclass, hhash, hdict]), kept?_public hp hpublic]
    rfl
  | none =>
    simp [Object.lookup, className_builder hp, hplain, hown, Object.cellAttribute, hp.builder,
      Object.builderAttribute, kept?_public hp hpublic, hfact, Object.onBehalf, hclass, hhash, hdict,
      hpublic]

/-- Making the object that a call returns leaves the builder alone. -/
theorem Atomic.settled {x : Action κ Value} {w₁ : World κ}
    (hx : Outcome x w₁ (fun _ w' => Intact w'.heap kind c)
      fun w' => Agree (Part w.heap c) w.heap w'.heap) :
    Outcome (do
      let result ← x
      Action.onHeap (Heap.settle result)) w₁ (fun _ w' => Intact w'.heap kind c)
      fun w' => Agree (Part w.heap c) w.heap w'.heap := by
  refine Outcome.bind (Outcome.mono hx (fun v w' hb => ?_) fun _ => id)
  obtain ⟨u, h', hrun, hcells, -⟩ := Heap.settle_cells w'.heap v
  exact Outcome.of_ok (run_onHeap_ok hrun) (hb.of_extends (Heap.extends_of_cells hcells))

/-- Whatever is called on an intact builder under a public name, it is all or nothing. -/
theorem operation_atomic (routine : Nat → Value → Action κ Unit) (hb : Intact w.heap kind c)
    {name : Name} (hpublic : isPrivate name.text = false)
    (hno : name.text ∉ ["evaluate", "payload_model"])
    (hclient : Considerate call kind c w name args) :
    Atomic kind c w (Object.send (Object.invoke call routine) (.ref c.builder) name args) := by
  simp only [List.mem_cons, List.not_mem_nil, or_false, not_or] at hno
  have hfound := lookup_operation hb hpublic hno.2
  have hask : ∀ {found : Object.Attribute},
      Object.lookup w.heap (.ref c.builder) name.text = .ok found →
      Action.ask (fun h => Object.lookup h (.ref c.builder) name.text) w = .ok found w := fun hl => by
    simp only [Action.ask, Action.onHeap, Heap.ask, hl]
  refine Outcome.bind (Outcome.of_ok (hask hfound) ?_)
  cases hd : (ClassName.builder kind).definer? name.text with
  | some cls =>
    exact Atomic.settled (Outcome.get_bind (method_atomic hb hpublic hno.1 hd hclient))
  | none =>
    have hcell : (w.heap.push (.field (.ref c.builder) name.value)).cell? (.ref w.heap.next) =
        some (.field (.ref c.builder) name.value) := Heap.read_alloc_new _ _
    refine Outcome.bind (Outcome.of_ok rfl (Atomic.settled (Outcome.get_bind ?_)))
    simp only [hcell]
    exact field_atomic hb hd hclient

/-! ### Histories -/

/-- Whether a world can be reached from the making of a builder: by calls of its functions under public
names, whether they succeed or fail, and by whatever leaves the builder's own cells alone.  What the
buffer holds may change in that, which goes for blocks that are being run as well. -/
inductive Reached (call : Caller κ) (routine : Nat → Value → Action κ Unit) (kind : BuilderKind)
    (b : Value) : World κ → Prop
  | create {w : World κ} {h' : Heap} : create kind w.heap = .ok b h' →
      Reached call routine kind b { w with heap := h' }
  | other {w w' : World κ} : Reached call routine kind b w →
      (∀ c : Cells, b = .ref c.builder → Placed w.heap kind c →
        ∀ r ∈ [c.builder, c.attributes, c.buffer], w'.heap.read r = w.heap.read r) →
      Reached call routine kind b w'
  | call {w : World κ} (name : Name) (args : Arguments) : Reached call routine kind b w →
      isPrivate name.text = false → name.text ∉ ["evaluate", "payload_model"] →
      (∀ c : Cells, b = .ref c.builder → Placed w.heap kind c →
        Considerate call kind c w name args) →
      Reached call routine kind b (stateAfter (Object.send (Object.invoke call routine) b name args) w)

/-- However a builder is used, it is intact. -/
theorem Reached.intact {b : Value} (hr : Reached call routine kind b w) :
    ∃ c : Cells, b = .ref c.builder ∧ Intact w.heap kind c := by
  induction hr with
  | @create w h' hrun =>
    obtain ⟨c, h₁, hcreate, -, hb, -⟩ := create_intact kind w.heap
    rw [hrun] at hcreate
    cases hcreate
    exact ⟨c, rfl, hb⟩
  | other _ hsame ih =>
    obtain ⟨c, rfl, hb⟩ := ih
    have hread := hsame c rfl hb.toPlaced
    exact ⟨c, rfl, hb.of_read_eq (hread _ (by simp)) (hread _ (by simp)) (hread _ (by simp))⟩
  | call name args _ hpublic hno hclient ih =>
    obtain ⟨c, rfl, hb⟩ := ih
    have hrun := operation_atomic routine hb hpublic hno (hclient c rfl hb.toPlaced)
    exact ⟨c, rfl, (hrun.mono (fun _ _ hb' => hb') fun _ => hb.agree).stateAfter⟩

/-! ### Blocks of the language -/

/-- A block that only fills the builder that it is given leaves all others alone. -/
theorem Block.discreet (block : Block kind) (id : Nat) (w : World κ) (c : Cells) :
    Discreet (answering block.run) c w w.heap kind (.routine id) := by
  intro child h₁ hcreate
  obtain ⟨d, h₂, hrun, he, hnew, hd⟩ := create_holds kind w.heap
  rw [hcreate] at hrun
  cases hrun
  -- a block writes the buffer of the new builder only, which is no part of what was there before
  have hspared : ∀ {w₂ : World κ}, Heap.AgreeBut d.buffer h₁ w₂.heap →
      Agree (Part w.heap c) h₁ w₂.heap := fun ha => ha.mono fun r hr =>
    ⟨fun heq => absurd (heq ▸ hr.2) (Nat.not_lt.mpr hnew), Nat.lt_of_lt_of_le hr.2 he.size_le⟩
  have hfollows := block.run_follows (w := { w with heap := h₁ }) hd
  rw [answering_run]
  unfold Follows at hfollows
  cases hinterpret : block.interpret [] with
  | ok _ ts =>
    rw [hinterpret] at hfollows
    obtain ⟨_, w₂, hblock, ha, hd₂⟩ := hfollows
    exact Outcome.of_ok ((run_bind_ok hblock).trans rfl)
      ⟨hspared ha, .inl ⟨kind, d, rfl, hd₂.standing.placed⟩⟩
  | error e ts =>
    rw [hinterpret] at hfollows
    obtain ⟨w₂, hblock, ha, -⟩ := hfollows
    exact Outcome.of_error (run_bind_error hblock) (hspared ha)

/-! ### Failures -/

theorem buffer_eq (hp : Placed h kind c) : buffer h (.ref c.builder) = .ok c.buffer := by
  obtain ⟨entries, hread⟩ := hp.buffer
  have hmapping : h.mapping? (.ref c.buffer) = some c.buffer := by
    simp [Heap.mapping?, Heap.dict?, Heap.depth, Heap.dictTo, hread]
  simp only [buffer, lookup_buffer hp, hmapping]

theorem intact_titledWorld (title : String) :
    Intact (titledWorld title).heap .openGraph ⟨⟨2⟩, ⟨1⟩, ⟨0⟩⟩ :=
  Bare.intact ⟨rfl, rfl, rfl⟩ (Heap.textKeys_texts _) (by decide)

/-- A block that fills in one of the fields that are required. -/
def typeBlock : Block .openGraph :=
  .set (.ofValue (.ofText "type") rfl) (.ofValue (.ofText "website") rfl) .done

/-- The world with a builder of cards that holds a settings store.  What the store has under the name of
the function for keys is the function that makes the builder anew. -/
def renewingWorld : World Unit where
  heap := ⟨#[.dict (Heap.textKeys [("app_name", .ref ⟨4⟩)]),
    .dict (Heap.textKeys [("_config", .ref ⟨0⟩)]), .builder .twitterCards ⟨1⟩,
    .dict (Heap.textKeys [("keys", .method (.ref ⟨2⟩) (.builder .plain) "__init__" .pending)]),
    .store ⟨3⟩], 0⟩
  current := none
  log := []
  constants := []
  client := ()

end PageMeta.Builder
