import PageMeta.Object.Invoke
import PageMeta.Proofs.Builder.Building

/-!
# Blocks

A block is a client's routine that is given a builder to fill.  It sets values to plain data, and opens
further blocks, which fill builders of their own; what these build is set in turn.  So blocks within
blocks denote trees.  `Block.interpret` works the tree out on entries, without any builder, and a block
that is run on a builder does the same: it gives the same entries, or stops with the same complaint and
leaves the same entries behind.

## Key results

- `Block.run`: what a block does with a builder
- `Block.interpret`: what a block does with entries
- `evaluate_interpret`: both do the same
-/

namespace PageMeta.Builder

open Heap (Extends AgreeBut)

/-! ### Programs -/

/-- The steps of a block for a builder of a class.  A block for articles opens on builders of Open
Graph only, and fills a builder of articles. -/
inductive Block : BuilderKind → Type where
  | done {kind : BuilderKind} : Block kind
  | set {kind : BuilderKind} (key value : Datum) (rest : Block kind) : Block kind
  | nested {kind : BuilderKind} (name : Datum) (inner rest : Block kind) : Block kind
  | article (inner : Block .article) (rest : Block .openGraph) : Block .openGraph

/-- Calls of values where a client's routine does something with its argument. -/
def answering {κ : Type} (routine : Value → Action κ Unit) : Caller κ :=
  Object.invoke (fun _ _ => throw .tooDeep) fun _ b => routine b

namespace Block

/-- Runs the steps of a block on a builder. -/
def run {κ : Type} : {kind : BuilderKind} → Block kind → Value → Action κ Unit
  | _, .done, _ => pure ()
  | _, .set key value rest, b => do
    let k ← Action.onHeap (Heap.buildText .plain key.tree)
    let v ← Action.onHeap (Heap.buildText .plain value.tree)
    discard (Action.onHeap (Builder.set b k v))
    run rest b
  | _, .nested name inner rest, b => do
    let k ← Action.onHeap (Heap.buildText .plain name.tree)
    discard (Builder.nested (answering (run inner)) b k (.routine 0))
    run rest b
  | _, .article inner rest, b => do
    discard (articleField (answering (run inner)) b (.routine 0))
    run rest b

/-! ### Interpretation -/

/-- A computation on entries; a failure keeps the entries that it left behind. -/
abbrev Interpreter := EStateM Error NamedTrees

/-- Writes an entry. -/
def assign (name : String) (t : Tree String) : Interpreter Unit := fun ts => .ok () (ts.put name t)

/-- What is computed on empty entries and passes the rules of a class, as a tree. -/
def finished (kind : BuilderKind) (x : Interpreter Unit) : Interpreter (Tree String) := fun outer =>
  match x [] with
  | .error e _ => .error e outer
  | .ok _ ts =>
    match checked kind ts with
    | .ok t => .ok t outer
    | .error e => .error e outer

/-- Writes what is finished as an entry. -/
def graft (name : String) (kind : BuilderKind) (x : Interpreter Unit) : Interpreter Unit := do
  assign name (← finished kind x)

/-- Works out what a block makes of entries: a value is assigned to the text of its key, and what an
inner block makes of no entries is assigned to its name, if it passes the rules of its class. -/
def interpret : {kind : BuilderKind} → Block kind → Interpreter Unit
  | _, .done => pure ()
  | _, .set key value rest => do
    assign key.tree.display value.tree
    interpret rest
  | kind, .nested name inner rest => do
    graft name.tree.display kind (interpret inner)
    interpret rest
  | _, .article inner rest => do
    graft "article" .article (interpret inner)
    interpret rest

end Block

/-! ### Actions that follow computations -/

open Block (Interpreter assign finished graft)

variable {κ α β : Type} {kind inner : BuilderKind} {c d : Cells} {w w₁ w₂ : World κ}
  {ts us : NamedTrees} {t : Tree String} {name : String} {key v : Value}

/-- Whether an action on a builder does what a computation does with the entries that the builder
holds: both end in the same way, with the same entries, and no cell but the buffer has changed. -/
def Follows (kind : BuilderKind) (c : Cells) (x : Action κ α) (w : World κ) (y : Interpreter Unit)
    (ts : NamedTrees) : Prop :=
  match y ts with
  | .ok _ us => ∃ a w', x w = .ok a w' ∧ AgreeBut c.buffer w.heap w'.heap ∧ Holds w'.heap kind c us
  | .error e us => ∃ w', x w = .error e w' ∧ AgreeBut c.buffer w.heap w'.heap ∧
      Holds w'.heap kind c us

namespace Follows

variable {x : Action κ α} {y z : Interpreter Unit}

/-- An action that comes to another one in a later world. -/
theorem of_run {x' : Action κ α} (hrun : x w = x' w₁) (ha : AgreeBut c.buffer w.heap w₁.heap)
    (hf : Follows kind c x' w₁ y ts) : Follows kind c x w y ts := by
  unfold Follows at hf ⊢
  split
  · rename_i hy
    rw [hy] at hf
    obtain ⟨a, w', hx, ha', hb⟩ := hf
    exact ⟨a, w', hrun.trans hx, ha.trans ha', hb⟩
  · rename_i hy
    rw [hy] at hf
    obtain ⟨w', hx, ha', hb⟩ := hf
    exact ⟨w', hrun.trans hx, ha.trans ha', hb⟩

theorem pure (hb : Holds w.heap kind c ts) (a : α) :
    Follows kind c (Pure.pure a) w (Pure.pure ()) ts :=
  ⟨a, w, rfl, Heap.Agree.refl _ _, hb⟩

theorem bind {f : α → Action κ β} (hx : Follows kind c x w y ts)
    (hf : ∀ a w' us, Holds w'.heap kind c us → Follows kind c (f a) w' z us) :
    Follows kind c (x >>= f) w (y >>= fun _ => z) ts := by
  unfold Follows at hx
  cases hy : y ts with
  | error e us =>
    rw [hy] at hx
    obtain ⟨w', hx, ha, hb⟩ := hx
    rw [Follows, run_bind_error hy]
    exact ⟨w', run_bind_error hx, ha, hb⟩
  | ok a us =>
    rw [hy] at hx
    obtain ⟨a, w', hx, ha, hb⟩ := hx
    have hz := (hf a w' us hb).of_run (run_bind_ok hx) ha
    rwa [Follows, run_bind_ok hy]

theorem discard (hx : Follows kind c x w y ts) : Follows kind c (discard x) w y ts := by
  unfold Follows at hx ⊢
  split
  · rename_i hy
    rw [hy] at hx
    obtain ⟨a, w', hx, h⟩ := hx
    exact ⟨(), w', run_discard_ok hx, h⟩
  · rename_i hy
    rw [hy] at hx
    obtain ⟨w', hx, h⟩ := hx
    exact ⟨w', run_discard_error hx, h⟩

end Follows

/-! ### One step -/

/-- Setting follows an assignment. -/
theorem set_follows (hb : Holds w.heap kind c ts) (hv : w.heap.Shown (· ≠ c.buffer) t v)
    (hk : ∃ mark, w.heap.nameKey key = .atom (.text name mark)) :
    Follows kind c (Action.onHeap (set (.ref c.builder) key v)) w (assign name t) ts := by
  obtain ⟨h', hrun, ha, hb'⟩ := set_holds hb hv hk
  exact ⟨_, _, run_onHeap_ok hrun, ha, hb'⟩

/-- Entries that are built are assigned as a tree, if they pass the rules. -/
def graftChecked (name : String) (kind : BuilderKind) (us : NamedTrees) : Interpreter Unit :=
  fun outer => match checked kind us with
    | .ok t => assign name t outer
    | .error e => .error e outer

/-- What is built on one builder is set on another. -/
def storeBuilt (call : Caller κ) (b key child : Value) : Action κ Value := do
  let result ← build call child
  Action.onHeap (set b key result)

theorem storeBuilt_follows (call : Caller κ) (hb : Holds w.heap kind c ts)
    (hd : Holds w.heap inner d us) (hk : w.heap.Shown (fun _ => True) t key) :
    Follows kind c (storeBuilt call (.ref c.builder) key (.ref d.builder)) w
      (graftChecked t.display inner us) ts := by
  have hbuild := build_checked call hd
  cases hchecked : checked inner us with
  | error e =>
    rw [hchecked] at hbuild
    rw [Follows, graftChecked, hchecked]
    exact ⟨w, run_bind_error hbuild, Heap.Agree.refl _ _, hb⟩
  | ok u =>
    rw [hchecked] at hbuild
    obtain ⟨v, w', hrun, he, hv⟩ := hbuild
    -- the result is in new cells, so it is not in the buffer
    have hv' : w'.heap.Shown (· ≠ c.buffer) u v := hv.mono fun r hr heq => hb.not_vacant (heq ▸ hr)
    have hset := set_follows (hb.later he) hv' (hk.later he).nameKey_eq
    have hstore : storeBuilt call (.ref c.builder) key (.ref d.builder) w =
        Action.onHeap (set (.ref c.builder) key v) w' := run_bind_ok hrun
    rw [Follows, graftChecked, hchecked]
    exact hset.of_run hstore he.agreeBut

section Inner

variable {routine : Value → Action κ Unit} {y : Interpreter Unit} {x : Action κ Value}

/-- An action grafts what an inner block makes if it makes a builder, runs the block on it, and sets
what is built. -/
theorem graft_follows (hb : Holds w.heap kind c ts) (hk : w.heap.Shown (fun _ => True) t key)
    (hroutine : ∀ d (w : World κ), Holds w.heap inner d [] →
      Follows inner d (routine (.ref d.builder)) w y [])
    (hx : ∀ d w₁, Action.onHeap (create inner) w = .ok (.ref d.builder) w₁ →
      Standing w₁.heap inner d →
      (∀ e w₂, routine (.ref d.builder) w₁ = .error e w₂ → x w = .error e w₂) ∧
      ∀ w₂, routine (.ref d.builder) w₁ = .ok () w₂ → Standing w₂.heap kind c →
        Standing w₂.heap inner d →
        ∃ call : Caller κ, x w = storeBuilt call (.ref c.builder) key (.ref d.builder) w₂) :
    Follows kind c x w (graft t.display inner y) ts := by
  obtain ⟨d, h₁, hcreate, he, hnew, hd⟩ := create_holds inner w.heap
  have hrun := run_onHeap_ok (w := w) hcreate
  obtain ⟨hfail, hok⟩ := hx d _ hrun hd.standing
  have hfollows := hroutine d { w with heap := h₁ } hd
  unfold Follows at hfollows
  cases hy : y [] with
  | error e us =>
    rw [hy] at hfollows
    obtain ⟨w₂, hroutine, ha, -⟩ := hfollows
    -- only the buffer of the new builder was filled, so the outer one holds what it held
    have he₂ : Extends w.heap w₂.heap := Heap.extends_of_agreeBut he ha hnew
    have hgraft : graft t.display inner y ts = .error e ts := run_bind_error (by rw [finished, hy])
    rw [Follows, hgraft]
    exact ⟨w₂, hfail e w₂ hroutine, he₂.agreeBut, hb.later he₂⟩
  | ok a us =>
    rw [hy] at hfollows
    obtain ⟨_, w₂, hroutine, ha, hd₂⟩ := hfollows
    have he₂ : Extends w.heap w₂.heap := Heap.extends_of_agreeBut he ha hnew
    have hb₂ := hb.later he₂
    have hgraft : graft t.display inner y ts = graftChecked t.display inner us ts := by
      rw [graft, graftChecked]
      cases hchecked : checked inner us with
      | error e => exact run_bind_error (by rw [finished, hy]; simp only [hchecked])
      | ok u => exact run_bind_ok (by rw [finished, hy]; simp only [hchecked])
    obtain ⟨call, hx⟩ := hok w₂ hroutine hb₂.standing hd₂.standing
    rw [Follows, hgraft]
    exact (storeBuilt_follows call hb₂ hd₂ ((hk.later he₂).mono fun _ _ => trivial)).of_run hx
      he₂.agreeBut

end Inner

theorem answering_run (routine : Value → Action κ Unit) (id : Nat) (b : Value) :
    answering routine (.routine id) (.of [b]) = (do routine b; return Value.none) := by
  have hbind : (Object.bindArguments Object.routineSignature (.of [b]) : Action κ Bound) =
      pure ⟨[b], [], [], []⟩ := rfl
  -- applying a routine binds its argument and runs it; what comes back is no value of its own
  have happly : Object.apply (fun _ _ => throw .tooDeep) (fun _ b => routine b) (.routine id)
      (.of [b]) = (do routine b; return Value.none) := by
    funext w
    refine (run_bind_ok run_get).trans ?_
    simp only [Heap.cell?, hbind]
    rfl
  rw [answering, Object.invoke, happly]
  funext w
  cases hr : routine b w with
  | ok a w' =>
    have hrun := run_bind_ok (f := fun _ => (pure Value.none : Action κ Value)) hr
    rw [hrun]
    exact run_bind_ok hrun
  | error e w' =>
    have hrun := run_bind_error (f := fun _ => (pure Value.none : Action κ Value)) hr
    rw [hrun]
    exact run_bind_error hrun

/-- A block is run on the builder that it is to fill. -/
theorem evaluate_answering (routine : Value → Action κ Unit) (id : Nat) (b : Value) :
    evaluate (answering routine) b (.routine id) = (do routine b; return b) := by
  funext w
  cases hr : routine b w with
  | ok a w' =>
    rw [run_bind_ok hr]
    refine run_bind_ok (run_discard_ok (a := Value.none) ?_)
    rw [answering_run, run_bind_ok hr]
    rfl
  | error e w' =>
    rw [run_bind_error hr]
    refine run_bind_error (run_discard_error ?_)
    rw [answering_run, run_bind_error hr]

section Steps

variable {routine : Value → Action κ Unit} {y : Interpreter Unit} {e : Error}

theorem evaluate_ok {b : Value} (hr : routine b w = .ok () w₁) (id : Nat) :
    evaluate (answering routine) b (.routine id) w = .ok b w₁ := by
  rw [evaluate_answering, run_bind_ok hr]
  rfl

theorem evaluate_error {b : Value} (hr : routine b w = .error e w₁) (id : Nat) :
    evaluate (answering routine) b (.routine id) w = .error e w₁ := by
  rw [evaluate_answering, run_bind_error hr]

/-- A nested block follows the grafting of what it makes, on a builder of the same class. -/
theorem nested_follows (hb : Holds w.heap kind c ts) (hk : w.heap.Shown (fun _ => True) t key)
    (hroutine : ∀ d (w : World κ), Holds w.heap kind d [] →
      Follows kind d (routine (.ref d.builder)) w y []) :
    Follows kind c (nested (answering routine) (.ref c.builder) key (.routine 0)) w
      (graft t.display kind y) ts := by
  refine graft_follows hb hk hroutine fun d w₁ hcreate hd => ?_
  have hanother := (another_eq (answering routine) hb.standing.placed).trans hcreate
  have hfill := fill_eq (answering routine) hd.placed (.routine 0)
  refine ⟨fun e w₂ hr => ?_, fun w₂ hr hs hd₂ => ⟨answering routine, ?_⟩⟩
  · have hfailed := hfill.trans (run_discard_error (evaluate_error hr 0))
    exact (run_bind_ok hanother).trans (run_bind_error hfailed)
  · have hfilled := hfill.trans (run_discard_ok (evaluate_ok hr 0))
    have hfinish := finish_eq (answering routine) hd₂.placed
    refine (run_bind_ok hanother).trans ((run_bind_ok hfilled).trans
      ((run_bind_ok (storing_ok _ hs.placed)).trans ?_))
    simp only [storeBuilt, bind, EStateM.bind, hfinish]

/-- A block for an article follows the grafting of what it makes. -/
theorem articleField_follows (hb : Holds w.heap kind c ts)
    (hroutine : ∀ d (w : World κ), Holds w.heap .article d [] →
      Follows .article d (routine (.ref d.builder)) w y []) :
    Follows kind c (articleField (answering routine) (.ref c.builder) (.routine 0)) w
      (graft "article" .article y) ts := by
  have hk : w.heap.Shown (fun _ => True) (.leaf (.ofText "article")) (.ofText "article") :=
    ⟨⟨rfl, Heap.isLeaf_of_isPlain rfl, fun r hr => by cases hr⟩, rfl⟩
  refine graft_follows hb hk hroutine fun d w₁ hcreate hd => ?_
  have hstoring := storing_ok (answering routine) hb.standing.placed
  refine ⟨fun e w₂ hr => ?_, fun w₂ hr hs hd₂ => ⟨answering routine, ?_⟩⟩
  · exact (run_bind_ok hstoring).trans ((run_bind_ok hcreate).trans
      (run_bind_error (run_discard_error (evaluate_error hr 0))))
  · exact (run_bind_ok hstoring).trans ((run_bind_ok hcreate).trans
      (run_bind_ok (run_discard_ok (evaluate_ok hr 0))))

end Steps

/-! ### All steps -/

/-- What a client writes down is shown by what it is given. -/
theorem onHeap_buildText (d : Datum) (w : World κ) :
    ∃ v h', Action.onHeap (Heap.buildText .plain d.tree) w = .ok v { w with heap := h' } ∧
      Extends w.heap h' ∧ h'.Shown w.heap.Vacant d.tree v := by
  obtain ⟨v, h', hrun, he, hv⟩ := Heap.buildText_shown d w.heap
  exact ⟨v, h', run_onHeap_ok hrun, he, hv⟩

namespace Block

/-- A block that is run on a builder does what it does with the entries that the builder holds. -/
theorem run_follows : ∀ {kind : BuilderKind} (block : Block kind) {c : Cells} {w : World κ}
    {ts : NamedTrees}, Holds w.heap kind c ts →
      Follows kind c (block.run (.ref c.builder)) w block.interpret ts
  | _, .done, _, _, _, hb => .pure hb ()
  | _, .set key value rest, c, w, ts, hb => by
    obtain ⟨k, h₁, hkey, he₁, hk⟩ := onHeap_buildText key w
    obtain ⟨v, h₂, hvalue, he₂, hv⟩ := onHeap_buildText value { w with heap := h₁ }
    have hb₁ : Holds h₁ _ c ts := hb.later he₁
    have hv' : h₂.Shown (· ≠ c.buffer) value.tree v :=
      hv.mono fun r hr heq => hb₁.not_vacant (heq ▸ hr)
    have hset := (set_follows (w := { w with heap := h₂ }) (hb₁.later he₂) hv'
      (hk.later he₂).nameKey_eq).discard
    refine Follows.of_run ((run_bind_ok hkey).trans (run_bind_ok hvalue)) (he₁.trans he₂).agreeBut ?_
    exact hset.bind fun _ _ _ hb => run_follows rest hb
  | _, .nested name inner rest, c, w, ts, hb => by
    obtain ⟨k, h₁, hname, he₁, hk⟩ := onHeap_buildText name w
    have hnested := (nested_follows (w := { w with heap := h₁ }) (hb.later he₁)
      (hk.mono fun _ _ => trivial) fun _ _ hd => run_follows inner hd).discard
    refine Follows.of_run (run_bind_ok hname) he₁.agreeBut ?_
    exact hnested.bind fun _ _ _ hb => run_follows rest hb
  | _, .article inner rest, c, w, ts, hb => by
    have harticle := (articleField_follows hb fun _ _ hd => run_follows inner hd).discard
    exact harticle.bind fun _ _ _ hb => run_follows rest hb

end Block

/-- Whether the buffer of a builder is a dictionary that shows entries. -/
def Buffers (h : Heap) (b : Value) (ts : NamedTrees) : Prop :=
  ∃ r, buffer h b = .ok r ∧ h.Reads .plain (fun _ => True) (.map ts) (.ref r)

theorem Holds.buffers {h : Heap} (hb : Holds h kind c ts) : Buffers h (.ref c.builder) ts := by
  obtain ⟨entries, hread, -⟩ := hb.buffer
  refine ⟨c.buffer, ?_, hb.shown.reads.mono fun _ _ => trivial⟩
  have hmapping : h.mapping? (.ref c.buffer) = some c.buffer := by
    simp [Heap.mapping?, Heap.dict?, Heap.depth, Heap.dictTo, hread]
  simp only [Builder.buffer, lookup_buffer hb.standing.placed, hmapping]

/-- Evaluating a block on a new builder fills its buffer as the block is interpreted on no entries; or
it raises the error that ends the interpretation, and the buffer has the entries up to there. -/
theorem evaluate_interpret (block : Block kind) (id : Nat) (w : World κ) :
    ∃ b h, create kind w.heap = .ok b h ∧
      match block.interpret [] with
      | .ok _ ts => ∃ w', evaluate (answering block.run) b (.routine id) { w with heap := h } =
          .ok b w' ∧ Buffers w'.heap b ts
      | .error e ts => ∃ w', evaluate (answering block.run) b (.routine id) { w with heap := h } =
          .error e w' ∧ Buffers w'.heap b ts := by
  obtain ⟨c, h, hcreate, -, -, hb⟩ := create_holds kind w.heap
  refine ⟨.ref c.builder, h, hcreate, ?_⟩
  have hfollows := block.run_follows (w := { w with heap := h }) hb
  unfold Follows at hfollows
  cases hinterpret : block.interpret [] with
  | ok _ ts =>
    rw [hinterpret] at hfollows
    obtain ⟨_, w', hrun, -, hb'⟩ := hfollows
    exact ⟨w', evaluate_ok hrun id, hb'.buffers⟩
  | error e ts =>
    rw [hinterpret] at hfollows
    obtain ⟨w', hrun, -, hb'⟩ := hfollows
    exact ⟨w', evaluate_error hrun id, hb'.buffers⟩

/-- An article is written in although it is empty; the block after it fails, and its name is not
written. -/
example : (.article .done (.nested (.ofValue (.ofText "more") rfl) .done .done) :
    Block .openGraph).interpret [] =
    .error (.violations (requiredFields.map fun name => "og:" ++ name ++ " is required"))
      [("article", .map [])] := rfl

end PageMeta.Builder
