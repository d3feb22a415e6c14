import PageMeta.Proofs.Builder.Failing
import PageMeta.Proofs.Object.Sending

/-!
# What the functions of a builder come to

Whatever way leads to the buffer of an intact builder, it comes to filing a value under a text or to
reading what is filed under one.  A field is a value of its own that knows its builder and its name, so
calling one is as good as asking the builder, whenever the field was made.

## Key results

- `filedAt`: what a builder has filed under a text
- `send_set`, `assign_files`, `call_field_value`: three ways of filing a value
- `send_get`, `call_field`, `send_getter`: three ways of reading one
- `call_field_block`: a field with a block is `nested`
- `useField_eq`: using a declared field is working out a value and filing it
-/

namespace PageMeta

/-- Whether a declared field reads when it is given nothing. -/
def FieldRule.reads : FieldRule → Bool
  | .plain | .handle | .list | .article | .app => true
  | .robots | .preset _ => false

/-- Whether being given none is being given nothing to a declared field. -/
def FieldRule.takesNone : FieldRule → Bool
  | .plain | .handle | .article | .app => true
  | .list | .robots | .preset _ => false

namespace Builder

open Heap (Extends isPrivate)

variable {κ : Type} {call : Caller κ} {routine : Nat → Value → Action κ Unit} {w w₁ : World κ}
  {h h' : Heap} {kind : BuilderKind} {c : Cells} {k v : Value} {name : String}

/-- What a builder has filed under a text; absent if there is nothing. -/
def filedAt (h : Heap) (c : Cells) (name : String) : Value := ((filed h c).get? name).getD .none

/-- What is stored under a key is what is filed under its text. -/
theorem stored_nameKey (hb : Intact h kind c) (hk : h.keyText (.atom k) = name) :
    stored h c (h.nameKey k) = filedAt h c name := by
  have htext : (h.nameKey k).text? = some name := hk ▸ Heap.text?_keyName (.atom k)
  rw [stored, filedAt, get?_filed hb htext]

theorem readFrom_filed (call : Caller κ) (hb : Intact w.heap kind c)
    (hk : w.heap.keyText (.atom k) = name) :
    readFrom call (.ref c.builder) k w = .ok (filedAt w.heap c name) w := by
  rw [readFrom_ok call hb.toPlaced, stored_nameKey hb hk]

theorem storeIn_files (call : Caller κ) (hb : Intact w.heap kind c) (k v : Value) :
    ∃ h', storeIn call (.ref c.builder) k v w = .ok (.ref c.builder) { w with heap := h' } ∧
      FilesOnly kind c [(w.heap.keyText (.atom k), v)] w.heap h' := by
  obtain ⟨h', hrun, ha⟩ := set_files hb k v
  exact ⟨h', (run_bind_ok (storing_ok call hb.toPlaced)).trans (run_onHeap_ok hrun), ha⟩

/-! ### Functions of all builders -/

/-- What a name of a function leads to on an intact builder is called with the builder in front. -/
theorem send_function (hb : Intact w.heap kind c) {name : Name} {owner : ClassName}
    (hpublic : isPrivate name.text = false)
    (hd : (ClassName.builder kind).definer? name.text = some owner) (args : Arguments) :
    Object.send (Object.invoke call routine) (.ref c.builder) name args w = (do
      let result ← Object.callFunction call owner name.text (args.after (.ref c.builder))
      Action.onHeap (Heap.settle result)) w := by
  have hno : name.text ≠ "payload_model" := fun heq => by
    have hnone : (ClassName.builder kind).definer? "payload_model" = none := by
      cases kind <;> decide +kernel
    rw [heq, hnone] at hd
    cases hd
  have hfound := lookup_operation hb hpublic hno
  rw [hd] at hfound
  exact Object.send_method hfound

/-- The functions that all builders have for their buffers. -/
def bufferFunctions : List String := ["set", "get", "nested", "merge", "build"]

/-- Calling one of them with arguments that give every parameter a value. -/
theorem send_common (hb : Intact w.heap kind c) (hname : name ∈ bufferFunctions) {args : Arguments}
    {values : List Value}
    (hbind : (Object.signature (.builder .plain) name).bind (args.after (.ref c.builder)) =
      .ok ⟨.ref c.builder :: values, [], [], []⟩) :
    Object.send (Object.invoke call routine) (.ref c.builder) name args w = (do
      let result ← callOther call .plain (.ref c.builder) name values
      Action.onHeap (Heap.settle result)) w := by
  -- no class of builders has functions of its own under these names
  have hfacts : ∀ kind, ∀ name ∈ bufferFunctions, isPrivate name = false ∧
      (ClassName.builder kind).definer? name = some (.builder .plain) := by
    intro kind
    cases kind <;> decide +kernel
  obtain ⟨hpublic, hd⟩ := hfacts kind name hname
  have hsend : ∀ args, Object.send (Object.invoke call routine) (.ref c.builder) (Name.ofText name) args w =
      _ := send_function hb hpublic hd
  rw [hsend]
  simp only [Object.callFunction, Object.callOwnFunction, Object.bindArguments, Name.ofText, hbind,
    pure_bind, List.headD_cons]
  rfl

section Common

variable {args : Arguments} {other block : Value} (hb : Intact w.heap kind c)
include hb

theorem send_set (hbind : (Object.signature (.builder .plain) "set").bind
      (args.after (.ref c.builder)) = .ok ⟨[.ref c.builder, k, v], [], [], []⟩) :
    ∃ h', Object.send (Object.invoke call routine) (.ref c.builder) "set" args w =
        .ok (.ref c.builder) { w with heap := h' } ∧
      FilesOnly kind c [(w.heap.keyText (.atom k), v)] w.heap h' := by
  obtain ⟨h', hrun, ha⟩ := set_files hb k v
  refine ⟨h', ?_, ha⟩
  rw [send_common hb (by decide) hbind]
  exact (run_bind_ok (run_onHeap_ok hrun)).trans (Object.run_settle rfl)

theorem send_get (hk : w.heap.keyText (.atom k) = name)
    (hmade : (filedAt w.heap c name).isMade = true) :
    Object.send (Object.invoke call routine) (.ref c.builder) "get" (.of [k]) w =
      .ok (filedAt w.heap c name) w := by
  have hget : fieldAt w.heap (.ref c.builder) (w.heap.nameKey k) = .ok (filedAt w.heap c name) := by
    rw [fieldAt_ok hb.toPlaced, stored_nameKey hb hk]
  rw [send_common hb (by decide) rfl]
  exact (run_bind_ok (Object.run_ask hget)).trans (Object.run_settle hmade)

theorem send_nested (hbind : (Object.signature (.builder .plain) "nested").bind
      (args.after (.ref c.builder)) = .ok ⟨[.ref c.builder, k, block], [], [], []⟩) :
    Object.send (Object.invoke call routine) (.ref c.builder) "nested" args w = (do
      let result ← nested call (.ref c.builder) k block
      Action.onHeap (Heap.settle result)) w :=
  send_common hb (by decide) hbind

theorem send_merge (hbind : (Object.signature (.builder .plain) "merge").bind
      (args.after (.ref c.builder)) = .ok ⟨[.ref c.builder, other], [], [], []⟩) :
    Outcome (Object.send (Object.invoke call routine) (.ref c.builder) "merge" args) w
      (fun _ w' => Files kind c (mergedWrites (.ref c.builder) other w.heap) w.heap w'.heap)
      fun w' => Extends w.heap w'.heap := by
  rw [Outcome, send_common hb (by decide) hbind]
  refine Outcome.bind (Outcome.onHeap ((merge_files hb other).mono (fun result h₁ hf => ?_) fun _ => id))
  obtain ⟨u, h₂, hrun, hcells, -⟩ := Heap.settle_cells h₁ result
  have hf₂ := hf.trans (Files.of_extends hf.intact (Heap.extends_of_cells hcells))
  rw [List.append_nil] at hf₂
  exact Outcome.of_ok (run_onHeap_ok (w := { w with heap := h₁ }) hrun) hf₂

end Common

/-- Assigning to an attribute under a public name files the value. -/
theorem assign_files (call : Caller κ) (hb : Intact w.heap kind c) (hpublic : isPrivate name = false)
    (v : Value) :
    ∃ h', Object.assign call (.ref c.builder) name v w = .ok () { w with heap := h' } ∧
      FilesOnly kind c [(name, v)] w.heap h' := by
  obtain ⟨h', hrun, ha⟩ := storeIn_files call hb (.ofText name) v
  have hkind : (kind? w.heap (.ref c.builder)).isSome = true := by
    simp [kind?, Heap.cell?, hb.builder]
  refine ⟨h', ?_, ha⟩
  rw [Object.assign, run_bind_ok run_get]
  simp only [hkind, hpublic, Bool.not_false, Bool.and_self, if_true]
  exact run_discard_ok hrun

/-! ### Fields that the class does not declare -/

/-- Calling a field of a builder. -/
theorem call_dynamic {f : Ref} {own : Value}
    (hread : w.heap.read f = some (.field (.ref c.builder) own)) {args : Arguments}
    {values : List Value} {block : Value}
    (hbind : (Object.signature .dynamicField "__call__").bind (args.after (.ref f)) =
      .ok ⟨[.ref f], values, [block], []⟩) :
    Object.invoke call routine (.ref f) args w = (do
      let result ← dynamicField call (.ref c.builder) own values block
      Action.onHeap (Heap.settle result)) w := by
  have hcell : w.heap.cell? (.ref f) = some (.field (.ref c.builder) own) := hread
  have hrun : Object.callFunction call .dynamicField "__call__" (args.after (.ref f)) w =
      dynamicField call (.ref c.builder) own values block w := by
    simp only [Object.callFunction, Object.callOwnFunction, Object.bindArguments, hbind, pure_bind,
      List.headD_cons, callFieldFunction]
    rw [run_bind_ok run_get]
    simp only [hcell]
  rw [Object.invoke_field hread]
  simp only [bind, EStateM.bind, hrun]

section Dynamic

variable {f : Ref} {own : Value} (hb : Intact w.heap kind c)
  (hread : w.heap.read f = some (.field (.ref c.builder) own))
include hb hread

/-- A field reads what is filed under its name. -/
theorem call_field (hk : w.heap.keyText (.atom own) = name)
    (hmade : (filedAt w.heap c name).isMade = true) :
    Object.invoke call routine (.ref f) {} w = .ok (filedAt w.heap c name) w := by
  have hbind : (Object.signature .dynamicField "__call__").bind (({} : Arguments).after (.ref f)) =
      .ok ⟨[.ref f], [], [.none], []⟩ := rfl
  rw [call_dynamic hread hbind]
  have hrun : dynamicField call (.ref c.builder) own [] .none w =
      .ok (filedAt w.heap c name) w :=
    (run_bind_ok run_get).trans (readFrom_filed call hb hk)
  exact (run_bind_ok hrun).trans (Object.run_settle hmade)

/-- A field files one value under its name. -/
theorem call_field_value {args : Arguments}
    (hbind : (Object.signature .dynamicField "__call__").bind (args.after (.ref f)) =
      .ok ⟨[.ref f], [v], [.none], []⟩) :
    ∃ h', Object.invoke call routine (.ref f) args w =
        .ok (.ref c.builder) { w with heap := h' } ∧
      FilesOnly kind c [(w.heap.keyText (.atom own), v)] w.heap h' := by
  obtain ⟨h', hstore, ha⟩ := storeIn_files call hb own v
  refine ⟨h', ?_, ha⟩
  rw [call_dynamic hread hbind]
  have hrun : dynamicField call (.ref c.builder) own [v] .none w =
      .ok (.ref c.builder) { w with heap := h' } := (run_bind_ok run_get).trans hstore
  exact (run_bind_ok hrun).trans (Object.run_settle rfl)

/-- A field with a block is `nested` under its name. -/
theorem call_field_block {block : Value} (hblock : block ≠ .none) :
    Object.invoke call routine (.ref f) { named := [("block", block)] } w =
      Object.send (Object.invoke call routine) (.ref c.builder) "nested" (.of [own, block]) w := by
  have hbind : (Object.signature .dynamicField "__call__").bind (({ named := [("block", block)] } : Arguments).after (.ref f)) =
      .ok ⟨[.ref f], [], [block], []⟩ := rfl
  have hnested : (Object.signature (.builder .plain) "nested").bind
      ((Arguments.of [own, block]).after (.ref c.builder)) =
        .ok ⟨[.ref c.builder, own, block], [], [], []⟩ := rfl
  rw [call_dynamic hread hbind, send_nested hb hnested]
  have hrun : dynamicField call (.ref c.builder) own [] block w =
      nested call (.ref c.builder) own block w := by
    refine (run_bind_ok run_get).trans ?_
    cases block with
    | none => exact absurd rfl hblock
    | _ =>
      -- the field asks its builder for `nested`, and gets the function of the class
      refine (run_bind_ok (ask_common hb.toPlaced (by decide))).trans ?_
      rw [run_bind_ok run_get, isOwn_common hb.toPlaced, if_pos rfl]
  simp only [bind, EStateM.bind, hrun]

end Dynamic

/-- A name that leads to no function is a new field. -/
theorem getAttribute_field (hb : Intact h kind c) {name : Name} (hpublic : isPrivate name.text = false)
    (hd : (ClassName.builder kind).definer? name.text = none) (hno : name.text ≠ "payload_model") :
    ∃ f, Object.getAttribute (.ref c.builder) name h =
        .ok (.ref f) (h.push (.field (.ref c.builder) name.value)) ∧
      (h.push (.field (.ref c.builder) name.value)).read f =
        some (.field (.ref c.builder) name.value) := by
  have hfound := lookup_operation hb hpublic hno
  rw [hd] at hfound
  have hask : Heap.ask (fun h => Object.lookup h (.ref c.builder) name.text) h = .ok .dynamic h := by
    rw [Heap.ask, hfound]
  exact ⟨h.next, run_bind_ok hask, Heap.read_alloc_new _ _⟩

/-! ### Declared fields -/

/-- A field that a class declares is one of its public functions. -/
theorem declared_field {rule : FieldRule} (hrule : kind.field? name = some rule) :
    isPrivate name = false ∧ (ClassName.builder kind).definer? name = some (.builder kind) := by
  have hfacts : ∀ kind, ∀ p ∈ BuilderKind.fields kind, isPrivate p.1 = false ∧
      (ClassName.builder kind).definer? p.1 = some (.builder kind) := by
    intro kind
    cases kind <;> decide +kernel
  obtain ⟨p, hfind, -⟩ := Option.map_eq_some_iff.mp hrule
  have hname : p.1 = name := by simpa using List.find?_some hfind
  exact hname ▸ hfacts kind p (List.mem_of_find?_eq_some hfind)

/-- Sending a builder the name of a declared field uses the field. -/
theorem send_field (hb : Intact w.heap kind c) {name : Name} {rule : FieldRule}
    (hrule : kind.field? name.text = some rule) {args : Arguments} {bound : Bound}
    (hbind : (Object.signature (.builder kind) name.text).bind (args.after (.ref c.builder)) =
      .ok bound) :
    Object.send (Object.invoke call routine) (.ref c.builder) name args w = (do
      let result ← useField call (.ref c.builder) name.text rule bound
      Action.onHeap (Heap.settle result)) w := by
  obtain ⟨hpublic, hd⟩ := declared_field hrule
  have hdeclared : (kind.field? name.text).isSome = true := by
    rw [hrule]
    rfl
  obtain ⟨others, hparams, hself⟩ := signature_receiver (.inl hdeclared)
  have hon : bound.On (.ref c.builder) fun _ => True :=
    Signature.bind_after hparams hself (fun _ _ _ _ => trivial) trivial
      ⟨fun _ _ => trivial, fun _ _ => trivial⟩ hbind
  obtain ⟨values, hvalues, -⟩ := hon.values
  rw [send_function hb hpublic hd]
  simp only [Object.callFunction, Object.callOwnFunction, Object.bindArguments, hbind, pure_bind,
    hvalues, List.headD_cons, callFunction, hrule]

/-- A value that is there. -/
def present? : Value → Option Value
  | .none => none
  | v => some v

theorem present?_eq_some {u : Value} : present? v = some u ↔ u = v ∧ v ≠ .none := by
  cases v <;> simp [present?, eq_comm]

/-- The value that a field for platforms files, if it files one. -/
def platformValue (call : Caller κ) (b name v platform : Value) : Action κ (Option Value) := do
  match v, platform with
  | .none, _ => return none
  | _, .none =>
    return some (← Action.onHeap (Heap.newDict (Heap.textKeys (appPlatforms.map fun p => (p, v)))))
  | _, _ => do
    let old ← readFrom call b name
    let entries ← if (← get).heap.truth old then Object.updateEntries call old else pure []
    let key ← Action.ask fun h => h.toKey platform
    return some (← Action.onHeap (Heap.newDict ((Entries.ofList entries).put key v)))

/-- The value that a declared field files, if it files one: the value it is given, as the rule of the
field has it.  A field that reads files none. -/
def fieldValue (call : Caller κ) (b : Value) (name : String) (rule : FieldRule) (bound : Bound) :
    Action κ (Option Value) := do
  match rule, bound.values with
  | .plain, [_, v] => return present? v
  | .handle, [_, v] => do
    let h := (← get).heap
    return present? (← Action.onHeap (Heap.settle (handle h v)))
  | .list, _ => do
    if bound.rest.isEmpty then return none
    let flat ← Action.ask fun h => h.flatten bound.rest
    return some (← Action.onHeap (Heap.newList flat))
  | .robots, [_, index, follow] =>
    let permissions := Heap.textKeys [("index", index), ("follow", follow)]
    return some (← Action.onHeap (Heap.newDict (permissions.putAll bound.options)))
  | .preset _, [_, v] => return some v
  | .article, [_, .none] => return none
  | .app, [_, v, platform] => platformValue call b (.ofText name) v platform
  | _, _ => throw (Object.unknownFunction (.builder .plain) name)

/-- Files a value if there is one, reads otherwise. -/
def fileOrRead (call : Caller κ) (b : Value) (name : String) : Option Value → Action κ Value
  | none => readFrom call b (.ofText name)
  | some v => storeIn call b (.ofText name) v

theorem storeOrRead_eq (call : Caller κ) (b : Value) (name : String) (v : Value) :
    storeOrRead call b (.ofText name) v = fileOrRead call b name (present? v) := by
  cases v <;> rfl

theorem storeForPlatform_eq (call : Caller κ) (b : Value) (name : String) (v platform : Value) :
    storeForPlatform call b (.ofText name) v platform = (do
      fileOrRead call b name (← platformValue call b (.ofText name) v platform)) := by
  unfold storeForPlatform platformValue
  split
  · rfl
  · simp only [bind_assoc, pure_bind]
    rfl
  · simp only [bind_assoc]
    refine bind_congr fun old => bind_congr fun w => ?_
    split
    · simp only [bind_assoc, pure_bind]
      rfl
    · simp only [bind_assoc, pure_bind]
      rfl

/-- Only one name is that of a field for crawlers, and only one that of a field for articles. -/
theorem name_of_rule {rule : FieldRule} (hrule : kind.field? name = some rule) :
    (rule = .robots → name = "robots") ∧ (rule = .article → name = "article") := by
  have hfacts : ∀ kind, ∀ p ∈ BuilderKind.fields kind, (p.2 = .robots → p.1 = "robots") ∧
      (p.2 = .article → p.1 = "article") := by
    intro kind
    cases kind <;> decide
  obtain ⟨p, hfind, hp⟩ := Option.map_eq_some_iff.mp hrule
  have hname : p.1 = name := by simpa using List.find?_some hfind
  exact hname ▸ hp ▸ hfacts kind p (List.mem_of_find?_eq_some hfind)

/-- Using a declared field is working out a value and filing it, or reading, unless it has a block to
run. -/
theorem useField_bind (hb : Intact w.heap kind c) {rule : FieldRule} (hrule : kind.field? name = some rule)
    {bound : Bound}
    (hblock : rule = .article → ∀ first block, bound.values = [first, block] → block = .none) :
    useField call (.ref c.builder) name rule bound w = (do
      fileOrRead call (.ref c.builder) name
        (← fieldValue call (.ref c.builder) name rule bound)) w := by
  obtain ⟨values, rest, named, options⟩ := bound
  -- each rule wants its own number of values, and refuses any other before it does anything
  cases rule with
  | plain =>
    match values with
    | [_, v] => exact (plainField_run call hb name v).trans (congrFun (storeOrRead_eq call _ name v) w)
    | [] | [_] | _ :: _ :: _ :: _ => rfl
  | handle =>
    match values with
    | [first, v] =>
      -- the text is made before the field looks at its builder, which does not change the builder
      obtain ⟨text, h₁, hsettle, hcells, -⟩ := Heap.settle_cells w.heap (handle w.heap v)
      have hb₁ : Intact h₁ kind c := hb.of_extends (Heap.extends_of_cells hcells)
      have hrun : Action.onHeap (Heap.settle (handle w.heap v)) w = .ok text { w with heap := h₁ } :=
        run_onHeap_ok hsettle
      have hpresent : fieldValue call (.ref c.builder) name .handle
          ⟨[first, v], rest, named, options⟩ w =
          .ok (present? text) { w with heap := h₁ } := (run_bind_ok run_get).trans (run_bind_ok hrun)
      rw [run_bind_ok hpresent]
      refine (run_bind_ok run_get).trans ((run_bind_ok hrun).trans ?_)
      exact (plainField_run (w := { w with heap := h₁ }) call hb₁ name text).trans
        (congrFun (storeOrRead_eq call _ name text) _)
    | [] | [_] | _ :: _ :: _ :: _ => rfl
  | list =>
    simp only [fieldValue, useField, listField]
    split
    · rfl
    · simp only [bind_assoc, pure_bind]
      rfl
  | robots =>
    obtain rfl := (name_of_rule hrule).1 rfl
    match values with
    | [_, index, follow] => rfl
    | [] | [_] | [_, _] | _ :: _ :: _ :: _ :: _ => rfl
  | preset value =>
    match values with
    | [_, v] => rfl
    | [] | [_] | _ :: _ :: _ :: _ => rfl
  | article =>
    obtain rfl := (name_of_rule hrule).2 rfl
    match values, hblock with
    | [_, v], hblock =>
      obtain rfl := hblock rfl _ v rfl
      rfl
    | [], _ | [_], _ => rfl
    | _ :: v :: _ :: _, _ => cases v <;> rfl
  | app =>
    obtain rfl := kind_of_app hrule
    match values with
    | [_, v, platform] =>
      refine (appField_run call hb name v platform).trans ?_
      rw [storeForPlatform_eq]
      rfl
    | [] | [_] | [_, _] | _ :: _ :: _ :: _ :: _ => rfl

/-- Using a declared field is filing the value that it works out, or reading. -/
theorem useField_eq (hb : Intact w.heap kind c) {rule : FieldRule} (hrule : kind.field? name = some rule)
    {bound : Bound} {v? : Option Value}
    (hvalue : fieldValue call (.ref c.builder) name rule bound w = .ok v? w₁) :
    useField call (.ref c.builder) name rule bound w = fileOrRead call (.ref c.builder) name v? w₁ := by
  refine (useField_bind hb hrule ?_).trans (run_bind_ok hvalue)
  obtain ⟨values, rest, named, options⟩ := bound
  rintro rfl first block rfl
  -- a block that is there is nothing that `fieldValue` works out
  cases block <;> first | rfl | cases hvalue

/-- What a declared field works out is filed, or else it reads. -/
theorem fileOrRead_files (call : Caller κ) (hb : Intact w.heap kind c) (name : String)
    (v? : Option Value) :
    ∃ u h', fileOrRead call (.ref c.builder) name v? w = .ok u { w with heap := h' } ∧
      FilesOnly kind c (v?.toList.map fun v => (name, v)) w.heap h' := by
  cases v? with
  | none => exact ⟨_, _, readFrom_filed call hb rfl, .refl hb⟩
  | some v =>
    obtain ⟨h', hrun, ha⟩ := storeIn_files call hb (.ofText name) v
    exact ⟨_, h', hrun, ha⟩

section Declared

variable {name : Name} {rule : FieldRule} {args : Arguments} {bound : Bound}
  (hb : Intact w.heap kind c) (hrule : kind.field? name.text = some rule)
  (hbind : (Object.signature (.builder kind) name.text).bind (args.after (.ref c.builder)) = .ok bound)
include hb hrule hbind

/-- Sending a builder the name of a declared field files what the field works out. -/
theorem send_field_files {v? : Option Value} (hb₁ : Intact w₁.heap kind c)
    (hvalue : fieldValue call (.ref c.builder) name.text rule bound w = .ok v? w₁) :
    ∃ u h', Object.send (Object.invoke call routine) (.ref c.builder) name args w =
        .ok u { w₁ with heap := h' } ∧
      FilesOnly kind c (v?.toList.map fun v => (name.text, v)) w₁.heap h' := by
  obtain ⟨result, h₁, hfile, ha⟩ := fileOrRead_files call hb₁ name.text v?
  obtain ⟨u, h₂, hsettle, hcells, -⟩ := Heap.settle_cells h₁ result
  have ha₂ := ha.trans (FilesOnly.of_extends ha.intact (Heap.extends_of_cells hcells))
  rw [List.append_nil] at ha₂
  refine ⟨u, h₂, ?_, ha₂⟩
  rw [send_field hb hrule hbind, run_bind_ok ((useField_eq hb hrule hvalue).trans hfile)]
  exact run_onHeap_ok (w := { w₁ with heap := h₁ }) hsettle

/-- A declared field that works out nothing reads what is filed under its name. -/
theorem send_field_reads (hvalue : fieldValue call (.ref c.builder) name.text rule bound w = .ok none w)
    (hmade : (filedAt w.heap c name.text).isMade = true) :
    Object.send (Object.invoke call routine) (.ref c.builder) name args w =
      .ok (filedAt w.heap c name.text) w := by
  have hread : useField call (.ref c.builder) name.text rule bound w =
      .ok (filedAt w.heap c name.text) w :=
    (useField_eq hb hrule hvalue).trans (readFrom_filed call hb rfl)
  rw [send_field hb hrule hbind, run_bind_ok hread]
  exact Object.run_settle hmade

end Declared

/-- A declared field that works out nothing of some arguments reads when it is given them. -/
theorem send_reads (hb : Intact w.heap kind c) {name : Name} {rule : FieldRule} {args : Arguments}
    (hrule : kind.field? name.text = some rule)
    (hnothing : ∀ function, ∃ bound : Bound,
      (Object.fieldSignature function rule).bind (args.after (.ref c.builder)) = .ok bound ∧
        fieldValue call (.ref c.builder) name.text rule bound w = .ok none w)
    (hmade : (filedAt w.heap c name.text).isMade = true) :
    Object.send (Object.invoke call routine) (.ref c.builder) name args w =
      .ok (filedAt w.heap c name.text) w := by
  obtain ⟨bound, hbind, hvalue⟩ := hnothing ((ClassName.builder kind).name ++ "." ++ name.text)
  exact send_field_reads hb hrule (signature_field hrule ▸ hbind) hvalue hmade

/-- A declared field that is given nothing reads, if it is one that does. -/
theorem send_getter (hb : Intact w.heap kind c) {name : Name} {rule : FieldRule}
    (hrule : kind.field? name.text = some rule) (hreads : rule.reads = true)
    (hmade : (filedAt w.heap c name.text).isMade = true) :
    Object.send (Object.invoke call routine) (.ref c.builder) name {} w =
      .ok (filedAt w.heap c name.text) w := by
  refine send_reads hb hrule (fun function => ?_) hmade
  cases rule <;> first | exact ⟨_, rfl, rfl⟩ | cases hreads

/-- A declared field that is given none reads, if none is nothing to it. -/
theorem send_getter_none (hb : Intact w.heap kind c) {name : Name} {rule : FieldRule}
    (hrule : kind.field? name.text = some rule) (hnone : rule.takesNone = true)
    (hmade : (filedAt w.heap c name.text).isMade = true) :
    Object.send (Object.invoke call routine) (.ref c.builder) name (.of [.none]) w =
      .ok (filedAt w.heap c name.text) w := by
  refine send_reads hb hrule (fun function => ?_) hmade
  cases rule <;> first | exact ⟨_, rfl, rfl⟩ | cases hnone

end Builder

end PageMeta
