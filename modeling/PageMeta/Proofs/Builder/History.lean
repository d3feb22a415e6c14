import PageMeta.Proofs.Builder.Sending

/-!
# Histories of builders

A builder is used: values are stored under keys, assigned to attributes and handed to fields, blocks
fill other builders that it takes the result of, and mappings are merged.  A history goes from one
world to a later one and says what was written under which text meanwhile.  Blocks are code of the
client, and so is what a value is asked for its keys by; what they write into the builder is part of
its history.

## Key results

- `History`: how a builder was used, and what was written
- `History.files`: the builder has filed just that
- `History.failed`: a call that fails writes nothing
-/

namespace PageMeta.Builder

open Heap (Extends isPrivate)

variable {κ : Type}

/-- What is asked of the steps of a history. -/
structure Terms where
  /-- Of a value that is handed in. -/
  given : Heap → Value → Prop
  /-- Of a value that is merged. -/
  merged : Heap → Value → Prop
  /-- Of what happens beside the uses of the builder. -/
  beside : Cells → Heap → Heap → Prop
  /-- Whether the builder that a block fills has a history on the same terms. -/
  filled : Prop

/-- No terms. -/
def Terms.free : Terms where
  given _ _ := True
  merged _ _ := True
  beside _ _ _ := True
  filled := False

/-- How a builder is used from one world on to another, with what is written meanwhile.  Beside its uses
there can be anything that leaves its own cells alone.  Where a use comes to code of the client, the
history goes on to the world in which that ends. -/
inductive History (t : Terms) (call : Caller κ) (routine : Nat → Value → Action κ Unit) :
    BuilderKind → Value → World κ → List (String × Value) → World κ → Prop
  | start {kind b w} : History t call routine kind b w [] w
  | other {kind b w ws w₁ w'} : History t call routine kind b w ws w₁ →
      (∀ c : Cells, b = .ref c.builder → Placed w₁.heap kind c → t.beside c w₁.heap w'.heap ∧
        ∀ r ∈ [c.builder, c.attributes, c.buffer], w'.heap.read r = w₁.heap.read r) →
      History t call routine kind b w ws w'
  | set {kind b w ws w₁ args key v u w'} : History t call routine kind b w ws w₁ →
      t.given w₁.heap v →
      (Object.signature (.builder .plain) "set").bind (args.after b) =
        .ok ⟨[b, key, v], [], [], []⟩ →
      Object.send (Object.invoke call routine) b "set" args w₁ = .ok u w' →
      History t call routine kind b w (ws ++ [(w₁.heap.keyText (.atom key), v)]) w'
  | assign {kind b w ws w₁ name v w'} : History t call routine kind b w ws w₁ →
      t.given w₁.heap v → isPrivate name = false →
      Object.assign (Object.invoke call routine) b name v w₁ = .ok () w' →
      History t call routine kind b w (ws ++ [(name, v)]) w'
  /-- A field that the class does not declare is called with one value. -/
  | dynamic {kind b w ws w₁ f own args v u w'} : History t call routine kind b w ws w₁ →
      t.given w₁.heap v → w₁.heap.read f = some (.field b own) →
      (Object.signature .dynamicField "__call__").bind (args.after (.ref f)) =
        .ok ⟨[.ref f], [v], [.none], []⟩ →
      Object.invoke call routine (.ref f) args w₁ = .ok u w' →
      History t call routine kind b w (ws ++ [(w₁.heap.keyText (.atom own), v)]) w'
  /-- A declared field is called. -/
  | field {kind b w ws w₁ us w₂ rule args bound v? u w'} {name : Name} :
      History t call routine kind b w ws w₁ → args.All (t.given w₁.heap) →
      (∀ p ∈ args.named, t.given w₁.heap p.1.value) → kind.field? name.text = some rule →
      (Object.signature (.builder kind) name.text).bind (args.after b) = .ok bound →
      fieldValue call b name.text rule bound w₁ = .ok v? w₂ →
      History t call routine kind b w₁ us w₂ →
      Object.send (Object.invoke call routine) b name args w₁ = .ok u w' →
      History t call routine kind b w (ws ++ (us ++ v?.toList.map fun v => (name.text, v))) w'
  /-- A block fills a builder of articles, which is built. -/
  | article {b w ws w₁ child h args block r ms w₂ us result w₃ vs u w'} :
      History t call routine .openGraph b w ws w₁ → block ≠ .none →
      (Object.signature (.builder .openGraph) "article").bind (args.after b) =
        .ok ⟨[b, block], [], [], []⟩ →
      create .article w₁.heap = .ok child h →
      evaluate call child block { w₁ with heap := h } = .ok r w₂ →
      (t.filled → History t call routine .article child { w₁ with heap := h } ms w₂) →
      History t call routine .openGraph b w₁ us w₂ →
      build call child w₂ = .ok result w₃ →
      History t call routine .openGraph b w₂ vs w₃ →
      Object.send (Object.invoke call routine) b "article" args w₁ = .ok u w' →
      History t call routine .openGraph b w (ws ++ (us ++ (vs ++ [("article", result)]))) w'
  /-- A block fills a builder of the same class, which is built. -/
  | nested {kind b w ws w₁ args key block child w₂ ms w₃ us result w₄ vs u w'} :
      History t call routine kind b w ws w₁ →
      (Object.signature (.builder .plain) "nested").bind (args.after b) =
        .ok ⟨[b, key, block], [], [], []⟩ →
      another call b w₁ = .ok child w₂ →
      fill call child block w₂ = .ok () w₃ →
      (t.filled → History t call routine kind child w₂ ms w₃) →
      History t call routine kind b w₁ us w₃ →
      finish call child w₃ = .ok result w₄ →
      History t call routine kind b w₃ vs w₄ →
      Object.send (Object.invoke call routine) b "nested" args w₁ = .ok u w' →
      History t call routine kind b w
        (ws ++ (us ++ (vs ++ [(w₄.heap.keyText (.atom key), result)]))) w'
  | merge {kind b w ws w₁ args other u w'} : History t call routine kind b w ws w₁ →
      t.merged w₁.heap other →
      (Object.signature (.builder .plain) "merge").bind (args.after b) =
        .ok ⟨[b, other], [], [], []⟩ →
      Object.send (Object.invoke call routine) b "merge" args w₁ = .ok u w' →
      History t call routine kind b w (ws ++ mergedWrites b other w₁.heap) w'

variable {t : Terms} {call : Caller κ} {routine : Nat → Value → Action κ Unit} {kind : BuilderKind}
  {b : Value} {w w' : World κ} {c : Cells} {us ws : List (String × Value)}

/-! ### Blocks -/

/-- Nesting stores what the new builder builds. -/
theorem nested_run {child block result : Value} {w₁ w₂ w₃ : World κ} (key : Value)
    (hanother : another call (.ref c.builder) w = .ok child w₁)
    (hfill : fill call child block w₁ = .ok () w₂) (hp : Placed w₂.heap kind c)
    (hfinish : finish call child w₂ = .ok result w₃) :
    nested call (.ref c.builder) key block w =
      Action.onHeap (set (.ref c.builder) key result) w₃ :=
  (run_bind_ok hanother).trans ((run_bind_ok hfill).trans
    ((run_bind_ok (storing_ok call hp)).trans (run_bind_ok hfinish)))

/-- A field for articles stores what the new builder builds. -/
theorem articleField_run {child block r result : Value} {h₁ : Heap} {w₂ w₃ : World κ}
    (hp : Placed w.heap kind c) (hblock : block ≠ .none)
    (hcreate : create .article w.heap = .ok child h₁)
    (heval : evaluate call child block { w with heap := h₁ } = .ok r w₂)
    (hbuild : build call child w₂ = .ok result w₃) :
    articleField call (.ref c.builder) block w =
      Action.onHeap (set (.ref c.builder) (.ofText "article") result) w₃ := by
  unfold articleField
  split
  · exact absurd rfl hblock
  · exact (run_bind_ok (storing_ok call hp)).trans ((run_bind_ok (run_onHeap_ok hcreate)).trans
      ((run_bind_ok (run_discard_ok heval)).trans (run_bind_ok hbuild)))

/-- The field for articles is called with a block. -/
theorem send_article (hb : Intact w.heap .openGraph c) {args : Arguments} {block : Value}
    (hbind : (Object.signature (.builder .openGraph) "article").bind (args.after (.ref c.builder)) =
      .ok ⟨[.ref c.builder, block], [], [], []⟩) :
    Object.send (Object.invoke call routine) (.ref c.builder) "article" args w = (do
      let result ← articleField call (.ref c.builder) block
      Action.onHeap (Heap.settle result)) w := by
  have hrule : BuilderKind.openGraph.field? (Name.ofText "article").text = some .article := by
    decide +kernel
  exact send_field hb hrule hbind

/-- The field for articles files what the new builder builds. -/
theorem article_files {args : Arguments} {child block r result u : Value} {h₁ : Heap}
    {w₂ w₃ : World κ} (hb : Intact w.heap .openGraph c) (hblock : block ≠ .none)
    (hbind : (Object.signature (.builder .openGraph) "article").bind (args.after (.ref c.builder)) =
      .ok ⟨[.ref c.builder, block], [], [], []⟩)
    (hcreate : create .article w.heap = .ok child h₁)
    (heval : evaluate call child block { w with heap := h₁ } = .ok r w₂)
    (hbuild : build call child w₂ = .ok result w₃) (hb₃ : Intact w₃.heap .openGraph c)
    (hrun : Object.send (Object.invoke call routine) (.ref c.builder) "article" args w = .ok u w') :
    FilesOnly .openGraph c [("article", result)] w₃.heap w'.heap := by
  have harticle := articleField_run hb.toPlaced hblock hcreate heval hbuild
  obtain ⟨h', hset, ha⟩ := set_files hb₃ (.ofText "article") result
  rw [send_article hb hbind, run_bind_ok (harticle.trans (run_onHeap_ok hset))] at hrun
  cases hrun
  exact ha

/-- Nesting files what the new builder builds. -/
theorem nested_files {args : Arguments} {key child block result u : Value} {w₁ w₂ w₃ : World κ}
    (hb : Intact w.heap kind c)
    (hbind : (Object.signature (.builder .plain) "nested").bind (args.after (.ref c.builder)) =
      .ok ⟨[.ref c.builder, key, block], [], [], []⟩)
    (hanother : another call (.ref c.builder) w = .ok child w₁)
    (hfill : fill call child block w₁ = .ok () w₂) (hp : Placed w₂.heap kind c)
    (hfinish : finish call child w₂ = .ok result w₃) (hb₃ : Intact w₃.heap kind c)
    (hrun : Object.send (Object.invoke call routine) (.ref c.builder) "nested" args w = .ok u w') :
    FilesOnly kind c [(w₃.heap.keyText (.atom key), result)] w₃.heap w'.heap := by
  have hnested := nested_run key hanother hfill hp hfinish
  obtain ⟨h', hset, ha⟩ := set_files hb₃ key result
  rw [send_nested hb hbind, run_bind_ok (hnested.trans (run_onHeap_ok hset))] at hrun
  cases hrun
  exact ha

/-! ### What is filed -/

/-- A new builder has filed nothing. -/
theorem filed_create {h h' : Heap} (hrun : create kind h = .ok (.ref c.builder) h')
    (hp : Placed h' kind c) : filed h' c = [] := by
  rw [filed, Heap.entriesAt_dict (bare_of_create hrun hp).buffer]
  rfl

/-- An intact builder stays intact in the course of its history, and files what is written. -/
theorem History.files (hw : History t call routine kind b w ws w') (hbuilder : b = .ref c.builder)
    (hb : Intact w.heap kind c) : Files kind c ws w.heap w'.heap := by
  induction hw with
  | start => exact .refl hb
  | other _ hsame ih =>
    have hf := ih hbuilder hb
    have hread := (hsame c hbuilder hf.intact.toPlaced).2
    refine ⟨hf.intact.of_read_eq (hread _ (by simp)) (hread _ (by simp)) (hread _ (by simp)), ?_⟩
    rw [filed_congr hf.intact (hread _ (by simp)), hf.filed_eq]
  | set _ _ hbind hrun ih =>
    subst hbuilder
    have hf := ih rfl hb
    have ha := heap_of_run ⟨_, send_set hf.intact hbind⟩ hrun
    exact hf.trans ha.toFiles
  | assign _ _ hpublic hrun ih =>
    subst hbuilder
    have hf := ih rfl hb
    have ha := heap_of_run ⟨_, assign_files _ hf.intact hpublic _⟩ hrun
    exact hf.trans ha.toFiles
  | dynamic _ _ hread hbind hrun ih =>
    subst hbuilder
    have hf := ih rfl hb
    have ha := heap_of_run ⟨_, call_field_value hf.intact hread hbind⟩ hrun
    exact hf.trans ha.toFiles
  | field _ _ _ hrule hbind hvalue _ hrun ih ih₁ =>
    subst hbuilder
    have hf := ih rfl hb
    -- working out the value may come to code of the client, whose part of the history comes first
    have hf₁ := ih₁ rfl hf.intact
    have ha := heap_of_run (send_field_files hf.intact hrule hbind hf₁.intact hvalue) hrun
    exact hf.trans (hf₁.trans ha.toFiles)
  | article _ hblock hbind hcreate heval _ _ hbuild _ hrun ih _ ih₂ ih₃ =>
    subst hbuilder
    have hf := ih rfl hb
    -- the builder is used while the block fills the other one, and while that one is built
    have hf₂ := ih₂ rfl hf.intact
    have hf₃ := ih₃ rfl hf₂.intact
    have ha := article_files hf.intact hblock hbind hcreate heval hbuild hf₃.intact hrun
    exact hf.trans (hf₂.trans (hf₃.trans ha.toFiles))
  | nested _ hbind hanother hfill _ _ hfinish _ hrun ih _ ih₂ ih₃ =>
    subst hbuilder
    have hf := ih rfl hb
    have hf₂ := ih₂ rfl hf.intact
    have hf₃ := ih₃ rfl hf₂.intact
    have ha := nested_files hf.intact hbind hanother hfill hf₂.intact.toPlaced hfinish hf₃.intact hrun
    exact hf.trans (hf₂.trans (hf₃.trans ha.toFiles))
  | merge _ _ hbind hrun ih =>
    subst hbuilder
    have hf := ih rfl hb
    exact hf.trans ((send_merge hf.intact hbind).result hrun)

/-- A call that fails writes nothing, if the client's code that it comes to leaves the builder alone. -/
theorem History.failed {w₁ : World κ} {name : Name} {args : Arguments} {e : Error}
    (hbeside : ∀ c h h', Heap.Agree (Part h c) h h' → t.beside c h h')
    (hw : History t call routine kind (.ref c.builder) w ws w₁) (hb : Intact w.heap kind c)
    (hpublic : isPrivate name.text = false) (hno : name.text ∉ ["evaluate", "payload_model"])
    (hclient : Considerate call kind c w₁ name args)
    (hrun : Object.send (Object.invoke call routine) (.ref c.builder) name args w₁ = .error e w') :
    History t call routine kind (.ref c.builder) w ws w' := by
  have hatomic := operation_atomic routine (hw.files rfl hb).intact hpublic hno hclient
  rw [Atomic, Outcome, hrun] at hatomic
  refine hw.other fun d hd hp => ?_
  -- what a builder leads to depends on where it is only
  have hagree : Heap.Agree (Part w₁.heap d) w₁.heap w'.heap := by
    rw [Part, ← Value.ref.inj hd]
    exact hatomic
  obtain ⟨hbuilder, hattributes, hbuffer⟩ := hp.part
  refine ⟨hbeside d _ _ hagree, ?_⟩
  simp only [List.forall_mem_cons]
  exact ⟨hagree.read_eq _ hbuilder, hagree.read_eq _ hattributes, hagree.read_eq _ hbuffer,
    fun _ hr => absurd hr List.not_mem_nil⟩

/-! ### A client without code -/

/-- A client without code of its own. -/
def noCaller : Caller Unit := fun _ _ => throw .tooDeep

/-- Routines that do nothing. -/
def noRoutine : Nat → Value → Action Unit Unit := fun _ _ => pure ()

/-- A world in which nothing was made yet. -/
def voidWorld : World Unit where
  heap := .empty
  current := none
  log := []
  constants := []
  client := ()

/-- The world with a new builder of a class. -/
def newBuilder (kind : BuilderKind) : World Unit :=
  { voidWorld with heap := stateAfter (create kind) .empty }

end PageMeta.Builder
