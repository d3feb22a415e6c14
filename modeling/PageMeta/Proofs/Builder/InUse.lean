import PageMeta.Object.Invoke
import PageMeta.Proofs.Builder.Fields

/-!
# Builders in use

Whatever inert values the fields of a builder are used with, stored on it, assigned to its attributes
and merged into it, whether that succeeds or fails, the builder stays where it is.  What a caller may
not do is to put another buffer, or another dictionary of attributes, in the place of its own.

## Key results

- `assign_leaves`: assigning inert values to attributes
- `BuilderCall.run_leaves`: one use of a builder
- `BuilderUsed.standing`: any number of them
-/

namespace PageMeta.Builder

open Heap (Extends Inert isPrivate)

variable {κ : Type} {call : Caller κ} {w : World κ} {h : Heap} {kind : BuilderKind} {c : Cells}
  {v : Value} {name : String}

/-! ### Assigning -/

/-- The names under which a builder has its parts. -/
def partNames : List String := ["_config", "__dict__"]

/-- Storing an inert value beside the buffer, under a private name. -/
theorem place_outcome (hs : Standing h kind c) (hv : h.Inert v) (hprivate : isPrivate name = true)
    (hname : name ∉ partNames) :
    Outcome (Object.place (.ref c.builder) name v) h (fun _ h' => Fills kind c h h')
      (Fills kind c h) := by
  simp only [partNames, List.mem_cons, List.not_mem_nil, or_false, not_or] at hname
  obtain ⟨kept, hkept, -⟩ := hs.attributes
  have hentries : h.dict? c.attributes = some (c.attributes, kept) := by
    simp [Heap.dict?, Heap.depth, Heap.dictTo, hkept]
  refine Outcome.get_bind ?_
  split
  · -- what is inert is no class
    refine Outcome.get_bind ?_
    split
    · exact hv.elim
    · exact Fills.refl hs
  · simp only [hs.builder, Object.keepOn, hname.2, if_false]
    split
    · exact Outcome.get_bind (Fills.refl hs)
    · have hrun : Object.keep c.attributes name v h =
          .ok () (h.write c.attributes (.dict (kept.put (Key.ofText name) v))) := by
        simp only [Object.keep, Heap.putEntry, Heap.entriesAt_dict hkept, Heap.putEntries, hentries]
      exact Outcome.of_ok hrun (hs.keep hv hprivate hname.1 hkept)

/-- Assigning an inert value: it is an entry under a public name, and an attribute otherwise. -/
theorem assign_leaves (call : Caller κ) (hs : Standing w.heap kind c) (hv : w.heap.Inert v)
    (hname : name ∉ partNames) : Leaves kind c w (Object.assign call (.ref c.builder) name v) := by
  have hcell : w.heap.cell? (.ref c.builder) = some (.builder kind c.attributes) := hs.builder
  refine Outcome.get_bind ?_
  split
  · exact Outcome.discard (storeIn_leaves call hs _ hv)
  · rename_i hpublic
    have hprivate : isPrivate name = true := by simpa [kind?, hcell] using hpublic
    refine Outcome.onHeap (Outcome.get_bind ?_)
    simp only [hcell, hprivate, if_true]
    exact place_outcome hs hv hprivate hname

/-! ### Calling fields -/

/-- Calls of values are refused if the value cannot be called. -/
theorem refuses_invoke (call : Caller κ) (routine : Nat → Value → Action κ Unit) :
    Caller.Refuses (Object.invoke call routine) := by
  intro v args w hv
  refine ⟨.notCallable (w.heap.typeName v), run_bind_error ?_⟩
  rw [Object.apply, run_bind_ok run_get]
  cases v with
  | ref r =>
    cases hcell : w.heap.cell? (.ref r) with
    | none => rfl
    | some cell => cases cell <;> first | rfl | simp [Object.isCallable, hcell] at hv
  | function | classOf | routine | method => cases hv
  | _ => rfl

/-- A field takes the builder first, and whatever else it takes is inert by default. -/
theorem fieldSignature_receiver (function : String) (rule : FieldRule) :
    ∃ others, (Object.fieldSignature function rule).parameters = Object.receiver :: others ∧
      (∀ p ∈ others, (Object.receiver.name == p.name) = false) ∧
      (Object.fieldSignature function rule).Defaults h.Inert := by
  refine ⟨(Object.fieldSignature function rule).parameters.tail, ?_⟩
  cases rule <;>
    simp [Object.fieldSignature, Object.receiver, Object.optional, Object.option,
      Parameter.required, Parameter.optional, Signature.Defaults, Value.ofText, Inert]

/-- The signature of a declared field is that of its rule. -/
theorem signature_field {rule : FieldRule} (hrule : kind.field? name = some rule) :
    Object.signature (.builder kind) name =
      Object.fieldSignature ((ClassName.builder kind).name ++ "." ++ name) rule := by
  simp only [Object.signature, Object.builderSignature, hrule]

/-- Calling a declared field with inert arguments. -/
theorem callField_leaves (hcall : call.Refuses) (hs : Standing w.heap kind c)
    (hfield : (kind.field? name).isSome) {args : Arguments} (ha : args.All w.heap.Inert) :
    Leaves kind c w
      (Object.callFunction call (.builder kind) name (args.after (.ref c.builder))) := by
  obtain ⟨rule, hrule⟩ := Option.isSome_iff_exists.mp hfield
  obtain ⟨others, hparams, hself, hd⟩ :=
    fieldSignature_receiver (h := w.heap) ((ClassName.builder kind).name ++ "." ++ name) rule
  refine Outcome.bind ?_
  rw [Object.bindArguments, signature_field hrule]
  split
  · rename_i bound hbind
    have hon := Signature.bind_after hparams hself hd trivial ha hbind
    obtain ⟨values, hvalues, -⟩ := hon.values
    have hrun : callFunction call kind (bound.values.headD .none) name bound =
        useField call (.ref c.builder) name rule bound := by
      simp only [callFunction, hrule, hvalues, List.headD_cons]
    have huse := useField_leaves hcall hs hrule hon
    rw [← hrun] at huse
    exact huse
  · exact Fills.refl hs

/-! ### Runs -/

/-- A use of a builder: a declared field with its arguments, any other field with what it stores and
a block, storing under a key, assigning to an attribute, or merging. -/
inductive BuilderCall where
  | field (name : String) (args : Arguments)
  | dynamic (name : Value) (values : List Value) (block : Value)
  | set (key value : Value)
  | assign (name : String) (value : Value)
  | merge (other : Value)

namespace BuilderCall

/-- Does what a call says. -/
def run (call : Caller κ) (kind : BuilderKind) (b : Value) : BuilderCall → Action κ Unit
  | field name args => discard (Object.callFunction call (.builder kind) name (args.after b))
  | dynamic name values block => discard (dynamicField call b name values block)
  | set key value => discard (Action.onHeap (Builder.set b key value))
  | assign name value => Object.assign call b name value
  | merge other => discard (Action.onHeap (Builder.merge b other))

/-- Whether a call has inert arguments, with inert values under the keys of what is merged, and does
not replace the parts of the builder. -/
def Given (kind : BuilderKind) (h : Heap) : BuilderCall → Prop
  | field name args => (kind.field? name).isSome ∧ args.All h.Inert
  | dynamic _ values block => (∀ u ∈ values, h.Inert u) ∧ h.Inert block
  | set _ value => h.Inert value
  | assign name value => name ∉ partNames ∧ h.Inert value
  | merge other => InertWithin h other

/-- The world that a call leaves behind, whether it succeeds or fails. -/
def after (call : Caller κ) (kind : BuilderKind) (b : Value) (w : World κ) (step : BuilderCall) :
    World κ :=
  stateAfter (step.run call kind b) w

theorem run_leaves (hcall : call.Refuses) (hs : Standing w.heap kind c) {step : BuilderCall}
    (hg : step.Given kind w.heap) : Leaves kind c w (step.run call kind (.ref c.builder)) := by
  cases step with
  | field name args => exact Outcome.discard (callField_leaves hcall hs hg.1 hg.2)
  | dynamic name values block =>
    exact Outcome.discard (dynamicField_leaves hcall hs name hg.1 hg.2)
  | set key value => exact Outcome.discard (Outcome.onHeap (set_outcome hs hg key))
  | assign name value => exact assign_leaves call hs hg.2 hg.1
  | merge other => exact Outcome.discard (Outcome.onHeap (merge_outcome hs hg))

theorem after_fills (hcall : call.Refuses) (hs : Standing w.heap kind c) {step : BuilderCall}
    (hg : step.Given kind w.heap) :
    Fills kind c w.heap (step.after call kind (.ref c.builder) w).heap :=
  (run_leaves hcall hs hg).stateAfter

end BuilderCall

/-- Whether a world can be reached by making a builder, anything that only makes new cells, and calls
with inert arguments, whether they succeed or fail. -/
inductive BuilderUsed (call : Caller κ) (kind : BuilderKind) (b : Value) : World κ → Prop
  | create {w : World κ} {h' : Heap} : create kind w.heap = .ok b h' →
      BuilderUsed call kind b { w with heap := h' }
  | build {w w' : World κ} : BuilderUsed call kind b w → Extends w.heap w'.heap →
      BuilderUsed call kind b w'
  | call {w : World κ} (step : BuilderCall) : BuilderUsed call kind b w → step.Given kind w.heap →
      BuilderUsed call kind b (step.after call kind b w)

/-- However a builder is used, it stands where it was made. -/
theorem BuilderUsed.standing (hcall : call.Refuses) {b : Value} (hu : BuilderUsed call kind b w) :
    ∃ c : Cells, b = .ref c.builder ∧ Standing w.heap kind c := by
  induction hu with
  | @create w h' hrun =>
    obtain ⟨c, h₁, hcreate, -, hs⟩ := create_standing kind w.heap
    rw [hrun] at hcreate
    cases hcreate
    exact ⟨c, rfl, hs⟩
  | build _ he ih =>
    obtain ⟨c, rfl, hs⟩ := ih
    exact ⟨c, rfl, hs.of_extends he⟩
  | call step _ hg ih =>
    obtain ⟨c, rfl, hs⟩ := ih
    exact ⟨c, rfl, (BuilderCall.after_fills hcall hs hg).standing⟩

end PageMeta.Builder
