import PageMeta.Builder.Calls
import PageMeta.Proofs.Builder.Standing
import PageMeta.Proofs.Object.Sending

/-!
# Using fields

A field stores through the function of its builder that stores, and reads through the one that reads.
With inert arguments a field leaves the builder where it stands: a block that is none is refused, and
everything else stores an inert value.

## Key results

- `Leaves`: an action after which the builder stands where it stood
- `useField_leaves`: using any declared field with inert arguments
- `dynamicField_leaves`: using any other field with inert arguments
-/

namespace PageMeta

variable {κ α β : Type} {call : Caller κ} {w w' : World κ}

/-- Whether calling what cannot be called is refused, with nothing done. -/
def Caller.Refuses (call : Caller κ) : Prop :=
  ∀ (v : Value) (args : Arguments) (w : World κ), Object.isCallable w.heap v = false →
    ∃ e, call v args w = .error e w

namespace Builder

open Heap (Extends Inert)

variable {kind : BuilderKind} {c : Cells} {v : Value} {name : String}

/-- Whether a builder stands where it stood after an action, whether it succeeds or fails. -/
def Leaves (kind : BuilderKind) (c : Cells) (w : World κ) (x : Action κ α) : Prop :=
  Outcome x w (fun _ w' => Fills kind c w.heap w'.heap) fun w' => Fills kind c w.heap w'.heap

namespace Leaves

theorem refl (hs : Standing w.heap kind c) {x : Action κ α} (hx : ∃ a, x w = .ok a w) :
    Leaves kind c w x := by
  obtain ⟨a, hx⟩ := hx
  exact Outcome.of_ok hx (.refl hs)

theorem failed (hs : Standing w.heap kind c) {x : Action κ α} (hx : ∃ e, x w = .error e w) :
    Leaves kind c w x := by
  obtain ⟨e, hx⟩ := hx
  exact Outcome.of_error hx (.refl hs)

/-- An action in a world in which the builder stands where it stood. -/
theorem after {x : Action κ α} (hx : Leaves kind c w' x) (hf : Fills kind c w.heap w'.heap) :
    Outcome x w' (fun _ w'' => Fills kind c w.heap w''.heap) fun w'' =>
      Fills kind c w.heap w''.heap :=
  hx.mono (fun _ _ => hf.trans) fun _ => hf.trans

end Leaves

/-! ### Storing and reading -/

theorem ask_common (hp : Placed w.heap kind c) (hn : name ∈ commonFunctions) :
    Action.ask (fun h => Object.lookup h (.ref c.builder) name) w =
      .ok (.method (.ref c.builder) (.builder .plain) name) w := by
  simp only [Action.ask, Action.onHeap, Heap.ask, lookup_common hp hn]

/-- On a builder a common function is the builder's own. -/
theorem isOwn_common (hp : Placed w.heap kind c) :
    isOwn w.heap (.ref c.builder) (.method (.ref c.builder) (.builder .plain) name) = true := by
  simp [isOwn, kind?, Heap.cell?, hp.builder]

theorem readFrom_ok (call : Caller κ) (hp : Placed w.heap kind c) (key : Value) :
    readFrom call (.ref c.builder) key w = .ok (stored w.heap c (w.heap.nameKey key)) w := by
  rw [readFrom, run_bind_ok (ask_common hp (by decide)), run_bind_ok run_get, isOwn_common hp,
    if_pos rfl]
  simp only [Action.ask, Action.onHeap, Heap.ask, fieldAt_ok hp]

theorem storing_ok (call : Caller κ) (hp : Placed w.heap kind c) :
    storing call (.ref c.builder) w =
      .ok (fun name v => Action.onHeap (set (.ref c.builder) name v)) w := by
  rw [storing, run_bind_ok (ask_common hp (by decide)), run_bind_ok run_get, isOwn_common hp]
  rfl

theorem storeIn_leaves (call : Caller κ) (hs : Standing w.heap kind c) (key : Value)
    (hv : w.heap.Inert v) : Leaves kind c w (storeIn call (.ref c.builder) key v) :=
  Outcome.bind (Outcome.of_ok (storing_ok call hs.placed) (Outcome.onHeap (set_outcome hs hv key)))

theorem storeOrRead_leaves (call : Caller κ) (hs : Standing w.heap kind c) (key : Value)
    (hv : w.heap.Inert v) : Leaves kind c w (storeOrRead call (.ref c.builder) key v) := by
  unfold storeOrRead
  split
  · exact Outcome.of_ok (readFrom_ok call hs.placed key) (.refl hs)
  · exact storeIn_leaves call hs key hv

/-- A new list or dictionary is stored. -/
theorem storeNew_leaves (call : Caller κ) (hs : Standing w.heap kind c) (key : Value) {cell : Cell}
    (hcell : (w.heap.push cell).Inert (.ref w.heap.next)) :
    Leaves kind c w (do
      let v ← Action.onHeap (do return .ref (← Heap.alloc cell))
      storeIn call (.ref c.builder) key v) := by
  have hf : Fills kind c w.heap (w.heap.push cell) := .of_extends hs (Heap.extends_push _ _)
  exact Outcome.bind (Outcome.of_ok rfl ((storeIn_leaves call hf.standing key hcell).after hf))

/-! ### Declared fields -/

/-- What is kept under the name of a function is not called: it is inert. -/
theorem use_leaves (hcall : call.Refuses) (hs : Standing w.heap kind c) {found : Object.Attribute}
    (hk : Object.kept? w.heap c.attributes name = some found) (asked : Name) (args : Arguments) :
    Leaves kind c w (Object.use call (.ref c.builder) asked found args) := by
  obtain ⟨u, rfl, hu⟩ := kept?_inert hs hk
  exact Leaves.failed hs (hcall u args w hu.not_callable)

theorem ask_method (hp : Placed w.heap kind c) {owner : ClassName}
    (hplain : Object.classFunction? (.builder kind) name = none)
    (hown : (ClassName.builder kind).definer? name = some owner)
    (hname : name ∉ ["__class__", "__hash__", "__dict__"]) :
    Action.ask (fun h => Object.lookup h (.ref c.builder) name) w =
      .ok ((Object.kept? w.heap c.attributes name).getD
        (.method (.ref c.builder) owner name)) w := by
  simp only [Action.ask, Action.onHeap, Heap.ask, lookup_method hp hplain hown hname]

/-- The function that plain fields go through belongs to every class of builders. -/
theorem ask_field (hp : Placed w.heap kind c) :
    Action.ask (fun h => Object.lookup h (.ref c.builder) "_field") w =
      .ok ((Object.kept? w.heap c.attributes "_field").getD
        (.method (.ref c.builder) (.builder .plain) "_field")) w := by
  have hfacts : ∀ kind, Object.classFunction? (.builder kind) "_field" = none ∧
      (ClassName.builder kind).definer? "_field" = some (.builder .plain) := by
    intro kind
    cases kind <;> decide +kernel
  exact ask_method hp (hfacts kind).1 (hfacts kind).2 (by decide)

/-- The one that fields for platforms go through belongs to the builders of Twitter cards. -/
theorem ask_appField (hp : Placed w.heap .twitterCards c) :
    Action.ask (fun h => Object.lookup h (.ref c.builder) "_app_field") w =
      .ok ((Object.kept? w.heap c.attributes "_app_field").getD
        (.method (.ref c.builder) (.builder .twitterCards) "_app_field")) w := by
  have hplain : Object.classFunction? (.builder .twitterCards) "_app_field" = none := by
    decide +kernel
  have hown : (ClassName.builder .twitterCards).definer? "_app_field" =
      some (.builder .twitterCards) := by decide +kernel
  exact ask_method hp hplain hown (by decide)

theorem plainField_leaves (hcall : call.Refuses) (hs : Standing w.heap kind c)
    (hv : w.heap.Inert v) : Leaves kind c w (plainField call (.ref c.builder) name v) := by
  rw [Leaves, plainField]
  refine Outcome.bind (Outcome.of_ok (ask_field hs.placed) ?_)
  cases hk : Object.kept? w.heap c.attributes "_field" with
  | none => exact storeOrRead_leaves call hs _ hv
  | some found =>
    obtain ⟨u, rfl, -⟩ := kept?_inert hs hk
    exact use_leaves hcall hs hk _ _

theorem listField_leaves (call : Caller κ) (hs : Standing w.heap kind c) (vs : List Value) :
    Leaves kind c w (listField call (.ref c.builder) name vs) := by
  unfold listField
  split
  · exact Leaves.refl hs ⟨_, readFrom_ok call hs.placed _⟩
  · refine Outcome.bind (Outcome.onHeap (Outcome.ask (fun flat _ => ?_) (.refl hs)))
    exact storeNew_leaves call hs _ (Inert.newList _ flat)

theorem robotsField_leaves (call : Caller κ) (hs : Standing w.heap kind c) (index follow : Value)
    (options : Entries Key Value) :
    Leaves kind c w (robotsField call (.ref c.builder) index follow options) :=
  storeNew_leaves call hs _ (Inert.newDict _ _)

/-- Storing for platforms makes a new dictionary, from that which is there if it counts as true. -/
theorem storeForPlatform_leaves (call : Caller κ) (hs : Standing w.heap kind c) (key : Value)
    (platform : Value) : Leaves kind c w (storeForPlatform call (.ref c.builder) key v platform) := by
  unfold storeForPlatform
  split
  · exact Leaves.refl hs ⟨_, readFrom_ok call hs.placed _⟩
  · exact storeNew_leaves call hs _ (Inert.newDict _ _)
  · -- what was stored before is inert, so that it gives a dictionary without running any code
    refine Outcome.bind (Outcome.of_ok (readFrom_ok call hs.placed key) (Outcome.get_bind ?_))
    -- with whatever entries the new dictionary starts, it is one of inert values
    have hstore : ∀ (entries : Entries Key Value) (w₁ : World κ), Extends w.heap w₁.heap →
        Outcome (do
          let k ← Action.ask fun h => h.toKey platform
          storeIn call (.ref c.builder) key
            (← Action.onHeap (Heap.newDict ((Entries.ofList entries).put k v)))) w₁
          (fun _ w' => Fills kind c w.heap w'.heap) fun w' => Fills kind c w.heap w'.heap := by
      intro entries w₁ he
      have hf := Fills.of_extends hs he
      refine Outcome.bind (Outcome.onHeap (Outcome.ask (fun k _ => ?_) hf))
      exact (storeNew_leaves call hf.standing key (Inert.newDict _ _)).after hf
    split
    · exact Outcome.bind ((Heap.updateEntries_extends call (stored_inert hs _)).mono hstore
        fun _ he => Fills.of_extends hs he)
    · exact hstore [] w (.refl _ _)

/-- Using a field for platforms, which a class of builders has if it has such fields. -/
theorem appField_leaves (hcall : call.Refuses) (hs : Standing w.heap .twitterCards c)
    (v platform : Value) :
    Leaves .twitterCards c w (appField call (.ref c.builder) name v platform) := by
  rw [Leaves, appField]
  refine Outcome.bind (Outcome.of_ok (ask_appField hs.placed) ?_)
  cases hk : Object.kept? w.heap c.attributes "_app_field" with
  | none => exact storeForPlatform_leaves call hs _ platform
  | some found =>
    obtain ⟨u, rfl, -⟩ := kept?_inert hs hk
    exact use_leaves hcall hs hk _ _

/-! ### Blocks -/

/-- A block that cannot be called is refused. -/
theorem evaluate_failed (hcall : call.Refuses) (b : Value) {block : Value} (hne : block ≠ .none)
    (hb : Object.isCallable w.heap block = false) : ∃ e, evaluate call b block w = .error e w := by
  obtain ⟨e, he⟩ := hcall block (.of [b]) w hb
  refine ⟨e, ?_⟩
  unfold evaluate
  split
  · exact absurd rfl hne
  · refine run_bind_error ?_
    simp only [Functor.discard, Functor.mapConst, EStateM.map, Function.comp_apply, he]

/-- A builder makes builders of its own class. -/
theorem another_eq (call : Caller κ) (hp : Placed w.heap kind c) :
    another call (.ref c.builder) w = Action.onHeap (create kind) w := by
  rw [another, run_bind_ok run_get, className_builder hp]

theorem fill_eq (call : Caller κ) (hp : Placed w.heap kind c) (block : Value) :
    fill call (.ref c.builder) block w =
      (discard (evaluate call (.ref c.builder) block) : Action κ Unit) w := by
  rw [fill, run_bind_ok (ask_common hp (by decide)), run_bind_ok run_get, isOwn_common hp,
    if_pos rfl]

theorem articleField_leaves (hcall : call.Refuses) (hs : Standing w.heap kind c) {block : Value}
    (hb : w.heap.Inert block) : Leaves kind c w (articleField call (.ref c.builder) block) := by
  unfold Leaves articleField
  split
  · exact Leaves.refl hs ⟨_, readFrom_ok call hs.placed _⟩
  · rename_i hne
    obtain ⟨child, h₁, hcreate, he, -⟩ := create_standing .article w.heap
    refine Outcome.bind (Outcome.of_ok (storing_ok call hs.placed) (Outcome.bind (Outcome.onHeap
      (Outcome.of_ok hcreate (Outcome.bind (Outcome.discard ?_))))))
    -- the new builder is made before the block is found to be none
    obtain ⟨e, hrefused⟩ := evaluate_failed (w := { w with heap := h₁ }) hcall (.ref child.builder)
      (fun heq => hne heq) (hb.of_extends he).not_callable
    exact Outcome.of_error hrefused (.of_extends hs he)

/-- A block for a new builder of the same class is refused as well. -/
theorem nested_leaves (hcall : call.Refuses) (hs : Standing w.heap kind c) (key : Value)
    {block : Value} (hne : block ≠ .none) (hb : w.heap.Inert block) :
    Leaves kind c w (nested call (.ref c.builder) key block) := by
  obtain ⟨child, h₁, hcreate, he, hchild⟩ := create_standing kind w.heap
  have hf : Fills kind c w.heap h₁ := .of_extends hs he
  have hanother : another call (.ref c.builder) w =
      .ok (.ref child.builder) { w with heap := h₁ } :=
    (another_eq call hs.placed).trans (run_onHeap_ok hcreate)
  obtain ⟨e, hrefused⟩ := evaluate_failed (w := { w with heap := h₁ }) hcall (.ref child.builder) hne
    (hb.of_extends he).not_callable
  have hfill := fill_eq (w := { w with heap := h₁ }) call hchild.placed block
  exact Outcome.bind (Outcome.of_ok hanother (Outcome.bind
    (Outcome.of_error (hfill.trans (run_discard_error hrefused)) hf)))

/-- A field that the class does not declare stores an inert value, reads, or refuses a block. -/
theorem dynamicField_leaves (hcall : call.Refuses) (hs : Standing w.heap kind c) (key : Value)
    {values : List Value} {block : Value} (hvalues : ∀ u ∈ values, w.heap.Inert u)
    (hb : w.heap.Inert block) :
    Leaves kind c w (dynamicField call (.ref c.builder) key values block) := by
  refine Outcome.get_bind ?_
  split
  · exact Leaves.refl hs ⟨_, readFrom_ok call hs.placed key⟩
  · -- more than one value is refused
    dsimp only
    split
    · exact Fills.refl hs
    · exact storeIn_leaves call hs key (hvalues _ List.mem_cons_self)
  · rename_i hne
    refine Outcome.bind (Outcome.of_ok (ask_common hs.placed (by decide)) (Outcome.get_bind ?_))
    rw [isOwn_common hs.placed, if_pos rfl]
    exact nested_leaves hcall hs key (fun heq => hne heq) hb
  · dsimp only
    split <;> exact Fills.refl hs

/-! ### All declared fields -/

/-- Only cards have fields for platforms. -/
theorem kind_of_app (hfield : kind.field? name = some .app) : kind = .twitterCards := by
  obtain ⟨p, hp, hrule⟩ := Option.map_eq_some_iff.mp hfield
  have hmem := List.mem_of_find?_eq_some hp
  have hfacts : ∀ kind, ∀ p ∈ BuilderKind.fields kind, p.2 = .app → kind = .twitterCards := by
    intro kind
    cases kind <;> decide
  exact hfacts kind p hmem hrule

theorem inert_handle (h : Heap) (v : Value) : h.Inert (handle h v) := by
  unfold handle
  split
  · trivial
  · split <;> trivial
  · trivial

/-- Using a declared field of a builder with inert arguments. -/
theorem useField_leaves (hcall : call.Refuses) (hs : Standing w.heap kind c) {rule : FieldRule}
    (hfield : kind.field? name = some rule) {bound : Bound}
    (hb : bound.On (.ref c.builder) w.heap.Inert) :
    Leaves kind c w (useField call (.ref c.builder) name rule bound) := by
  obtain ⟨⟨values, hvalues, hinert⟩, hrest, -⟩ := hb
  unfold useField
  rw [hvalues]
  split
  · exact plainField_leaves hcall hs (hinert _ (by simp_all))
  · -- the text is made before it is stored
    rename_i value _
    obtain ⟨text, h₁, hrun, hcells, htext⟩ := Heap.settle_cells w.heap (handle w.heap value)
    have hf : Fills kind c w.heap h₁ := .of_extends hs (Heap.extends_of_cells hcells)
    refine Outcome.get_bind (Outcome.bind (Outcome.onHeap (Outcome.of_ok hrun ?_)))
    have hplain : Leaves kind c { w with heap := h₁ } (plainField call (.ref c.builder) name text) :=
      plainField_leaves hcall hf.standing (htext (inert_handle _ _))
    exact hplain.after hf
  · exact listField_leaves call hs _
  · exact robotsField_leaves call hs _ _ _
  · exact storeIn_leaves call hs _ (hinert _ (by simp_all))
  · exact articleField_leaves hcall hs (hinert _ (by simp_all))
  · obtain rfl := kind_of_app hfield
    exact appField_leaves hcall hs _ _
  · exact Fills.refl hs

end Builder

end PageMeta
