import PageMeta.Proofs.Builder.Checking
import PageMeta.Proofs.Builder.Simple
import PageMeta.Proofs.Heap.Nesting

/-!
# Setting a field to what it reads

Fields turn what they are given into what they file: a handle is the text of a value with an `@` in
front, a list has its arguments without lists and tuples, and nothing is filed if nothing is given.
What a field has filed is a fixed point of that, whatever its builder was used with before: setting the
field to what it reads leaves the buffer as it was.

## Key results

- `handleText_handleText`: a handle is its own handle
- `send_tended`: what one call does to what is filed
- `NamedUse.tended`: what any calls do
- `set_read_unchanged`: setting a field to what it reads
-/

namespace PageMeta.Builder

open Heap (Extends AgreeBut)

variable {κ : Type} {call : Caller κ} {routine : Nat → Value → Action κ Unit} {w w₁ w' : World κ}
  {h h' : Heap} {kind : BuilderKind} {c : Cells} {b v : Value} {name : Name} {rule : FieldRule}
  {bound : Bound} {args : Arguments} {last? : Option String} {v? : Option Value}
  {log : Entries String String}

/-! ### Handles -/

/-- Handles start with an `@`. -/
theorem startsWith_handleText (s : String) : (handleText s).startsWith "@" = true := by
  rw [handleText]
  split
  · assumption
  · rw [String.startsWith_string_iff, String.toList_append]
    exact List.prefix_append _ _

/-- A handle is its own handle. -/
theorem handleText_handleText (s : String) : handleText (handleText s) = handleText s :=
  if_pos (startsWith_handleText s)

/-- The handle of a value that is there is that of its text. -/
theorem handle_present (h : Heap) (hv : v ≠ .none) :
    ∃ mark, handle h v = .text (handleText (h.display v)) mark := by
  unfold handle
  split
  · exact absurd rfl hv
  · rename_i s mark
    split
    · exact ⟨mark, by rw [Heap.display, handleText, if_pos ‹_›]⟩
    · exact ⟨.pending, rfl⟩
  · exact ⟨.pending, rfl⟩

/-- The handle of a handle is that handle itself. -/
theorem handle_handle (h : Heap) (s : String) (mark : Mark) :
    handle h (.text (handleText s) mark) = .text (handleText s) mark :=
  if_pos (startsWith_handleText s)

/-! ### What calls give -/

/-- Whether a value can be given to a field: it is made, what it leads to is there, and it cannot be
called. -/
structure Offered (h : Heap) (v : Value) : Prop where
  made : v.isMade = true
  there : h.There [v]
  not_callable : Object.isCallable h v = false

theorem offered_of_isScalar (h : Heap) (hv : v.isScalar = true) : Offered h v where
  made := Value.isMade_of_isScalar hv
  there := (Heap.ready_new h).there fun u hu => by
    obtain rfl := List.mem_singleton.mp hu
    exact Heap.held_of_addresses (Value.addresses_of_isScalar hv)
  not_callable := by cases v <;> first | rfl | cases hv

theorem Offered.extends (ho : Offered h v) (he : Extends h h') : Offered h' v where
  made := ho.made
  there := ho.there.agree (ho.there.agree_of_extends he)
  not_callable := by
    cases v with
    | ref r =>
      have hcell : h'.cell? (.ref r) = h.cell? (.ref r) :=
        he.read_eq r (ho.there r (Heap.leads_self r))
      have hsame : Object.isCallable h' (.ref r) = Object.isCallable h (.ref r) := by
        unfold Object.isCallable
        rw [hcell]
      exact hsame.trans ho.not_callable
    | _ => exact ho.not_callable

/-- The text of the value that a call gives a field that takes one; there is none if it gives none. -/
def textOf (h : Heap) (bound : Bound) : Option String :=
  match bound.values with
  | [_, v] => (present? v).map h.display
  | _ => none

/-- The text that a call gives a field, if its arguments are such as the field takes. -/
def givenText (h : Heap) (kind : BuilderKind) (b : Value) (name : Name) (args : Arguments) :
    Option String :=
  match (Object.signature (.builder kind) name.text).bind (args.after b) with
  | .ok bound => textOf h bound
  | .error _ => none

/-- Whether calls of the named fields of a builder lead from one world to another, whether they succeed
or fail, with new values made in between; and the texts that were given, by field. -/
inductive NamedUse (call : Caller κ) (routine : Nat → Value → Action κ Unit) (kind : BuilderKind)
    (b : Value) : World κ → Entries String String → World κ → Prop
  | start {w : World κ} : NamedUse call routine kind b w [] w
  | make {w w₁ w₂ : World κ} {log : Entries String String} : NamedUse call routine kind b w log w₁ →
      Extends w₁.heap w₂.heap → NamedUse call routine kind b w log w₂
  | call {w w₁ : World κ} {log : Entries String String} {name : Name} {rule : FieldRule}
      {args : Arguments} : NamedUse call routine kind b w log w₁ →
      kind.field? name.text = some rule → args.All (Offered w₁.heap) →
      NamedUse call routine kind b w
        (log ++ (givenText w₁.heap kind b name args).toList.map fun s => (name.text, s))
        (stateAfter (Object.send (Object.invoke call routine) b name args) w₁)

/-- The text that was given to a field last. -/
def lastText (log : Entries String String) (name : String) : Option String :=
  Entries.get? name log.reverse

/-- A text that is given is the last one of its field. -/
theorem lastText_concat (log : Entries String String) (name : String) (s? : Option String) :
    lastText (log ++ s?.toList.map fun s => (name, s)) name = s?.or (lastText log name) := by
  cases s? <;> simp [lastText, Entries.get?]

/-- It is none of any other field. -/
theorem lastText_concat_of_ne (log : Entries String String) {name other : String} (hne : name ≠ other)
    (s? : Option String) :
    lastText (log ++ s?.toList.map fun s => (name, s)) other = lastText log other := by
  cases s? <;> simp [lastText, Entries.get?, hne]

/-! ### What fields have filed -/

/-- Whether what is filed under the name of a field is what the field files, whose last text is known. -/
def Fed (h : Heap) (c : Cells) (last? : Option String) : FieldRule → Option Value → Prop
  | .plain, v? => ∀ v ∈ v?, v.isMade = true
  | .handle, v? => ∃ mark, (Value.text "" mark).isMade = true ∧
      v? = last?.map fun s => .text (handleText s) mark
  | .list, v? => ∀ v ∈ v?, ∃ r items, v = .ref r ∧ r ≠ c.buffer ∧ h.read r = some (.list items) ∧
      ∀ u ∈ items, h.IsSingle u
  | .app, v? => ∀ v ∈ v?, ∃ r entries, v = .ref r ∧ r ≠ c.buffer ∧ h.read r = some (.dict entries)
  | .robots, _ | .preset _, _ | .article, _ => True

/-- What is single stays so when dictionaries are written. -/
theorem isSingle_agreeBut {d : Ref} (ha : AgreeBut d h h') {es : Entries Key Value}
    (hd : h'.read d = some (.dict es)) (hs : h.IsSingle v) : h'.IsSingle v := by
  cases v with
  | ref r =>
    have hlt := hs.2 r rfl
    refine ⟨?_, fun s hv => Nat.lt_of_lt_of_le (hs.2 s hv) ha.size_le⟩
    by_cases heq : r = d
    · simp [Heap.sequence?, Heap.cell?, heq, hd]
    · have hcell : h'.cell? (.ref r) = h.cell? (.ref r) := ha.read_eq r ⟨heq, hlt⟩
      rw [Heap.sequence?, hcell]
      exact hs.1
  | _ => exact ⟨rfl, fun _ hv => by cases hv⟩

/-- It does not matter what is filed under other names. -/
theorem Fed.agreeBut (hf : Fed h c last? rule v?) (ha : AgreeBut c.buffer h h')
    (hb : Intact h' kind c) : Fed h' c last? rule v? := by
  have hkept : ∀ r, r ≠ c.buffer → ∀ cell, h.read r = some cell → h'.read r = some cell :=
    fun r hne cell hread => (ha.read_eq r ⟨hne, Heap.lt_size_of_read hread⟩).trans hread
  cases rule with
  | list =>
    intro v hv
    obtain ⟨r, items, rfl, hne, hread, hitems⟩ := hf v hv
    obtain ⟨es, hbuffer⟩ := hb.buffer
    exact ⟨r, items, rfl, hne, hkept r hne _ hread,
      fun u hu => isSingle_agreeBut ha hbuffer (hitems u hu)⟩
  | app =>
    intro v hv
    obtain ⟨r, entries, rfl, hne, hread⟩ := hf v hv
    exact ⟨r, entries, rfl, hne, hkept r hne _ hread⟩
  | _ => exact hf

/-- Whether a builder is intact, and all that it has filed under the names of its fields is what these
file. -/
structure Tended (h : Heap) (kind : BuilderKind) (c : Cells) (log : Entries String String) : Prop where
  intact : Intact h kind c
  fed : ∀ name rule, kind.field? name = some rule →
    Fed h c (lastText log name) rule ((filed h c).get? name)

namespace Tended

variable (ht : Tended h kind c log)
include ht

theorem of_extends (he : Extends h h') : Tended h' kind c log := by
  have hb := ht.intact.of_extends he
  refine ⟨hb, fun name rule hrule => ?_⟩
  rw [(Files.of_extends ht.intact he).filed_eq]
  exact (ht.fed name rule hrule).agreeBut he.agreeBut hb

/-- A call that files what its field files, or reads. -/
theorem files {name : String} {rule : FieldRule} (hrule : kind.field? name = some rule)
    (he : Extends h h') {s? : Option String} {v? : Option Value}
    (hfed : Fed h' c (s?.or (lastText log name)) rule (v?.or ((filed h c).get? name)))
    {h'' : Heap} (hf : FilesOnly kind c (v?.toList.map fun v => (name, v)) h' h'') :
    Tended h'' kind c (log ++ s?.toList.map fun s => (name, s)) := by
  have hfiled : filed h' c = filed h c := (Files.of_extends ht.intact he).filed_eq
  refine ⟨hf.intact, fun other rule' hrule' => ?_⟩
  rw [hf.filed_eq, Entries.get?_putAll, hfiled]
  by_cases hname : name = other
  · subst hname
    obtain rfl := Option.some.inj (hrule.symm.trans hrule')
    have hlast : Entries.get? name (v?.toList.map fun v => (name, v)).reverse = v? := by
      cases v? <;> simp [Entries.get?]
    rw [lastText_concat, hlast]
    exact hfed.agreeBut hf.agree hf.intact
  · have hlast : Entries.get? other (v?.toList.map fun v => (name, v)).reverse = none := by
      cases v? <;> simp [Entries.get?, hname]
    rw [lastText_concat_of_ne log hname, hlast]
    exact (ht.fed other rule' hrule').agreeBut (he.agreeBut.trans hf.agree) hf.intact

/-- A call that files nothing. -/
theorem keeps {name : String} {rule : FieldRule} (hrule : kind.field? name = some rule)
    (he : Extends h h') {s? : Option String}
    (hfed : Fed h' c (s?.or (lastText log name)) rule ((filed h c).get? name)) :
    Tended h' kind c (log ++ s?.toList.map fun s => (name, s)) :=
  have hnone : Fed h' c (s?.or (lastText log name)) rule ((none : Option Value).or ((filed h c).get? name)) :=
    hfed
  ht.files hrule he hnone (.refl (ht.intact.of_extends he))

end Tended

/-! ### What one call files -/

/-- Whether working out the value of a field gives one that the field files, or none, and makes new cells
only, also if it fails. -/
def Feeds (w : World κ) (c : Cells) (last? : Option String) (rule : FieldRule) (old? : Option Value)
    (x : Action κ (Option Value)) : Prop :=
  Outcome x w (fun v? w' => Extends w.heap w'.heap ∧ Fed w'.heap c last? rule (v?.or old?))
    fun w' => Extends w.heap w'.heap ∧ Fed w'.heap c last? rule old?

variable {old? : Option Value} {values : List Value}

/-- What is in a sequence that is there is there as well. -/
theorem there_of_sequence? {items : List Value} (ht : h.There [v]) (hs : h.sequence? v = some items) :
    ∀ u ∈ items, h.There [u] := by
  intro u hu s hleads
  refine ht s ?_
  obtain ⟨r, rfl, hread⟩ := Heap.read_of_sequence? hs
  induction hleads with
  | held hu' ht =>
    obtain rfl := (List.mem_singleton.mp hu').symm
    have hmem := List.mem_flatMap.mpr ⟨u, hu, ht⟩
    rcases hread with hread | hread <;> exact (Heap.leads_self r).step hread hmem
  | step _ hread' ht ih => exact ih.step hread' ht

theorem feeds_plain (hold : Fed w.heap c last? .plain old?) (hvalues : bound.values = b :: values)
    (hoffered : ∀ v ∈ values, Offered w.heap v) (name : String) :
    Feeds w c ((textOf w.heap bound).or last?) .plain old? (fieldValue call b name .plain bound) := by
  unfold Feeds fieldValue
  rw [hvalues]
  match values with
  | [v] =>
    refine Outcome.pure ⟨Heap.Agree.refl _ _, fun u hu => ?_⟩
    cases hpresent : present? v with
    | none =>
      rw [hpresent] at hu
      exact hold u hu
    | some u' =>
      rw [hpresent] at hu
      cases hu
      exact (present?_eq_some.mp hpresent).1 ▸ (hoffered v List.mem_cons_self).made
  | [] | _ :: _ :: _ => exact ⟨Heap.Agree.refl _ _, hold⟩

theorem feeds_handle (hold : Fed w.heap c last? .handle old?) (hvalues : bound.values = b :: values)
    (name : String) :
    Feeds w c ((textOf w.heap bound).or last?) .handle old? (fieldValue call b name .handle bound) := by
  unfold Feeds fieldValue textOf
  rw [hvalues]
  match values with
  | [v] =>
    refine Outcome.get_bind (Outcome.bind (Outcome.onHeap ?_))
    by_cases hv : v = .none
    · subst hv
      exact ⟨Heap.Agree.refl _ _, hold⟩
    · obtain ⟨mark, hhandle⟩ := handle_present w.heap hv
      obtain ⟨made, h₁, hsettle, hmade, hcells⟩ :=
        Heap.settle_marked w.heap (.text (handleText (w.heap.display v)) mark)
      rw [hhandle]
      refine Outcome.of_ok hsettle (Outcome.pure ⟨Heap.extends_of_cells hcells, made, hmade, ?_⟩)
      dsimp only
      rw [present?_eq_some.mpr ⟨rfl, hv⟩]
      rfl
  | [] | _ :: _ :: _ => exact ⟨Heap.Agree.refl _ _, hold⟩

section New

variable (hb : Intact w.heap kind c) (he : Extends w.heap w₁.heap)
include hb he

/-- A cell that is made later is not the buffer. -/
theorem next_ne_buffer : w₁.heap.next ≠ c.buffer := fun heq => by
  obtain ⟨es, hread⟩ := hb.buffer
  refine absurd (Heap.lt_size_of_read hread) (Nat.not_lt.mpr ?_)
  rw [← heq]
  exact he.size_le

theorem feeds_newDict (entries : Entries Key Value) :
    Outcome (do return some (← Action.onHeap (Heap.newDict entries))) w₁
      (fun v? w' => Extends w.heap w'.heap ∧ Fed w'.heap c last? .app (v?.or old?))
      fun w' => Extends w.heap w'.heap ∧ Fed w'.heap c last? .app old? := by
  refine Outcome.bind (Outcome.of_ok rfl (Outcome.pure
    ⟨he.trans (Heap.extends_push _ _), fun v hv => ?_⟩))
  cases hv
  exact ⟨_, entries, rfl, next_ne_buffer hb he, Heap.read_alloc_new _ _⟩

end New

theorem feeds_list (hb : Intact w.heap kind c) (hold : Fed w.heap c last? .list old?)
    (hrest : ∀ v ∈ bound.rest, Offered w.heap v) (name : String) :
    Feeds w c ((textOf w.heap bound).or last?) .list old? (fieldValue call b name .list bound) := by
  unfold Feeds fieldValue
  dsimp only
  split
  · exact Outcome.pure ⟨Heap.Agree.refl _ _, hold⟩
  · refine Outcome.bind (Outcome.onHeap (Outcome.ask (fun flat hflat => ?_) ⟨Heap.Agree.refl _ _, hold⟩))
    have hsingle : ∀ u ∈ flat, w.heap.IsSingle u := fun u hu => by
      obtain ⟨hthere, hnone⟩ := Heap.flattenTo_forall (fun v items => there_of_sequence?)
        (fun v hv => (hrest v hv).there) hflat u hu
      exact ⟨hnone, fun r hr => hthere r (hr ▸ Heap.leads_self r)⟩
    have he := Heap.extends_push w.heap (.list flat)
    refine Outcome.of_ok rfl ⟨he, fun v hv => ?_⟩
    cases hv
    exact ⟨_, flat, rfl, next_ne_buffer hb (Heap.Agree.refl _ _), Heap.read_alloc_new _ _,
      fun u hu => (hsingle u hu).extends he⟩

theorem feeds_app (hb : Intact w.heap kind c) (hold : Fed w.heap c last? .app old?) {name : String}
    (hfiled : filedAt w.heap c name = old?.getD .none) (v platform : Value) :
    Feeds w c last? .app old? (platformValue call (.ref c.builder) (.ofText name) v platform) := by
  have hread : readFrom call (.ref c.builder) (.ofText name) w = .ok (old?.getD .none) w :=
    hfiled ▸ readFrom_filed call hb rfl
  unfold Feeds platformValue
  split
  · exact ⟨Heap.Agree.refl _ _, hold⟩
  · exact feeds_newDict hb (Heap.Agree.refl _ _) _
  · -- with whatever entries the new dictionary starts, it is one
    have hnew : ∀ (entries : Entries Key Value) (h₁ : Heap), Extends w.heap h₁ →
        Outcome (do
          let key ← Action.ask fun h => h.toKey platform
          return some (← Action.onHeap (Heap.newDict ((Entries.ofList entries).put key v))))
          { w with heap := h₁ }
          (fun v? w' => Extends w.heap w'.heap ∧ Fed w'.heap c last? .app (v?.or old?))
          fun w' => Extends w.heap w'.heap ∧ Fed w'.heap c last? .app old? := by
      intro entries h₁ he
      exact Outcome.bind (Outcome.onHeap (Outcome.ask
        (fun key _ => feeds_newDict hb (he : Extends w.heap ({ w with heap := h₁ } : World κ).heap) _)
        ⟨he, hold.agreeBut he.agreeBut (hb.of_extends he)⟩))
    refine Outcome.bind (Outcome.of_ok hread (Outcome.get_bind ?_))
    split
    · rename_i htruth
      cases old? with
      | none => cases htruth
      | some old =>
        obtain ⟨r, entries, rfl, -, hdict⟩ := hold old rfl
        obtain ⟨h', hrun, he⟩ := Heap.updateEntries_dict call hdict
        exact Outcome.bind (Outcome.of_ok hrun (hnew _ h' he))
    · exact Outcome.bind (Outcome.of_ok rfl (hnew [] w.heap (Heap.Agree.refl _ _)))

/-- A field that is used with values that it can be given works out a value that it files. -/
theorem fieldValue_feeds (hb : Intact w.heap kind c) (hold : Fed w.heap c last? rule old?)
    {name : String} (hfiled : filedAt w.heap c name = old?.getD .none)
    (hon : bound.On (.ref c.builder) (Offered w.heap)) :
    Feeds w c ((textOf w.heap bound).or last?) rule old?
      (fieldValue call (.ref c.builder) name rule bound) := by
  obtain ⟨⟨values, hvalues, hoffered⟩, hrest, -⟩ := hon
  -- one case for each rule; of a wrong number of values, no field files anything
  cases rule with
  | plain => exact feeds_plain hold hvalues hoffered name
  | handle => exact feeds_handle hold hvalues name
  | list => exact feeds_list hb hold hrest name
  | app =>
    unfold fieldValue
    rw [hvalues]
    match values with
    | [v, platform] => exact feeds_app hb hold hfiled v platform
    | [] | [_] | _ :: _ :: _ :: _ => exact ⟨Heap.Agree.refl _ _, hold⟩
  | robots =>
    unfold Feeds fieldValue
    rw [hvalues]
    match values with
    | [index, follow] => exact Outcome.bind (Outcome.of_ok rfl ⟨Heap.extends_push _ _, trivial⟩)
    | [] | [_] | _ :: _ :: _ :: _ => exact ⟨Heap.Agree.refl _ _, trivial⟩
  | preset value =>
    unfold Feeds fieldValue
    rw [hvalues]
    match values with
    | [v] | [] | _ :: _ :: _ => exact ⟨Heap.Agree.refl _ _, trivial⟩
  | article =>
    unfold Feeds fieldValue
    rw [hvalues]
    match values with
    | [] => exact ⟨Heap.Agree.refl _ _, trivial⟩
    | [v] | v :: _ :: _ => cases v <;> exact ⟨Heap.Agree.refl _ _, trivial⟩

/-- A block that cannot be called is refused, after a new builder was made for it. -/
theorem articleField_refuses (hcall : call.Refuses) (hb : Intact w.heap kind c)
    (ho : Offered w.heap v) (hv : v ≠ .none) :
    Outcome (articleField call (.ref c.builder) v) w (fun _ _ => False) fun w' =>
      Extends w.heap w'.heap := by
  unfold articleField
  split
  · exact absurd rfl hv
  · obtain ⟨d, h₁, hcreate, he, -⟩ := create_intact .article w.heap
    obtain ⟨e, hrefused⟩ := evaluate_failed (w := { w with heap := h₁ }) hcall (.ref d.builder) hv
      (ho.extends he).not_callable
    exact Outcome.bind (Outcome.of_ok (storing_ok call hb.toPlaced) (Outcome.bind (Outcome.onHeap
      (Outcome.of_ok hcreate (Outcome.bind (Outcome.discard (Outcome.of_error hrefused he)))))))

/-- What a field that can be left out of a call is used with then can be given to it. -/
theorem fieldSignature_offered (h : Heap) (function : String) (rule : FieldRule) :
    (Object.fieldSignature function rule).Defaults (Offered h) := fun p hp v hv =>
  offered_of_isScalar h (fieldSignature_scalars function rule p hp v hv)

/-- What a call gives a field. -/
theorem bound_offered (hrule : kind.field? name.text = some rule) (hargs : args.All (Offered h))
    (hbind : (Object.signature (.builder kind) name.text).bind (args.after b) = .ok bound) :
    bound.On b (Offered h) := by
  obtain ⟨others, hparams, hself⟩ := signature_receiver (.inl (Option.isSome_iff_exists.mpr ⟨rule, hrule⟩))
  refine Signature.bind_after hparams hself ?_ (offered_of_isScalar h rfl) hargs hbind
  rw [signature_field hrule]
  exact fieldSignature_offered h _ rule

/-- A call of a named field leaves all that is filed under the names of fields as these file it, whether
it succeeds or fails. -/
theorem send_tended (hcall : call.Refuses) (ht : Tended w.heap kind c log)
    (hrule : kind.field? name.text = some rule) (hargs : args.All (Offered w.heap)) :
    Outcome (Object.send (Object.invoke call routine) (.ref c.builder) name args) w
      (fun _ w' => Tended w'.heap kind c
        (log ++ (givenText w.heap kind (.ref c.builder) name args).toList.map fun s => (name.text, s)))
      fun w' => Tended w'.heap kind c
        (log ++ (givenText w.heap kind (.ref c.builder) name args).toList.map fun s =>
          (name.text, s)) := by
  have hb := ht.intact
  have hold := ht.fed name.text rule hrule
  rw [givenText]
  cases hbind : (Object.signature (.builder kind) name.text).bind (args.after (.ref c.builder)) with
  | error e =>
    -- a call with other arguments than the field takes fails before anything is done
    obtain ⟨hpublic, hd⟩ := declared_field hrule
    rw [Outcome, send_function hb hpublic hd]
    simp only [Object.callFunction, Object.callOwnFunction, Object.bindArguments, hbind]
    rw [← Option.none_or (o := lastText log name.text)] at hold
    exact ht.keeps hrule (Heap.Agree.refl _ _) hold
  | ok bound =>
    have hon := bound_offered hrule hargs hbind
    obtain ⟨values, hvalues, hoffered⟩ := hon.values
    dsimp only
    rw [Outcome, send_field hb hrule hbind]
    refine Outcome.bind ?_
    by_cases hblock : rule = .article → ∀ first block, bound.values = [first, block] → block = .none
    · rw [Outcome, useField_bind hb hrule hblock]
      refine Outcome.bind ((fieldValue_feeds hb hold rfl hon).mono (fun v? w₁ hfeeds => ?_) fun w₁ hfailed =>
        ht.keeps hrule hfailed.1 hfailed.2)
      obtain ⟨u, h', hrun, hf⟩ := fileOrRead_files call (hb.of_extends hfeeds.1) name.text v?
      refine Outcome.of_ok hrun (Outcome.onHeap ?_)
      have htended := ht.files hrule hfeeds.1 hfeeds.2 hf
      exact (Heap.settle_extends u h').mono (fun _ _ he => htended.of_extends he) fun _ => id
    · push Not at hblock
      obtain ⟨rfl, first, block, hpair, hne⟩ := hblock
      have hoffered : Offered w.heap block := by
        rw [hvalues] at hpair
        cases hpair
        exact hoffered block List.mem_cons_self
      have huse : useField call (.ref c.builder) name.text .article bound =
          articleField call (.ref c.builder) block := by
        unfold useField
        rw [hpair]
      rw [huse]
      exact (articleField_refuses hcall hb hoffered hne).mono (fun _ _ => False.elim) fun w' he =>
        ht.keeps hrule he (trivial : Fed _ _ _ .article _)

/-- Whatever the named fields of a builder were used with, all that is filed under their names is what
they file. -/
theorem NamedUse.tended (hcall : call.Refuses) {c : Cells}
    (hu : NamedUse call routine kind (.ref c.builder) w log w') :
    ∀ {log₀ : Entries String String}, Tended w.heap kind c log₀ → Tended w'.heap kind c (log₀ ++ log) := by
  induction hu with
  | start =>
    intro log₀ ht
    rwa [List.append_nil]
  | make _ he ih => exact fun ht => (ih ht).of_extends he
  | call _ hrule hargs ih =>
    intro log₀ ht
    rw [← List.append_assoc]
    exact (send_tended hcall (ih ht) hrule hargs).stateAfter

/-- A new builder has filed nothing. -/
theorem create_tended {h₀ : Heap} (hcreate : create kind h = .ok b h₀) :
    ∃ c : Cells, b = .ref c.builder ∧ Tended h₀ kind c [] := by
  obtain ⟨c, h₁, hrun, -, hb, -⟩ := create_intact kind h
  rw [hcreate] at hrun
  cases hrun
  refine ⟨c, rfl, hb, fun name rule _ => ?_⟩
  rw [filed_create hcreate hb.toPlaced]
  cases rule with
  | handle => exact ⟨.shared, rfl, rfl⟩
  | robots | preset | article => trivial
  | _ => exact fun v hv => by cases hv

/-! ### Setting a field to what it reads -/

/-- What a field is called with that is set to a value: the value, or its items one by one if the field
takes any number of values. -/
def setArguments (h : Heap) (rule : FieldRule) (v : Value) : Arguments :=
  if rule = .list then .of ((h.sequence? v).getD []) else .of [v]

/-- Whether a value is another one, or both are lists of the same items. -/
def Likens (h : Heap) (v u : Value) : Prop :=
  u = v ∨ ∃ r s items, v = .ref r ∧ u = .ref s ∧ h.read r = some (.list items) ∧
    h.read s = some (.list items)

/-- A later heap in which a builder has filed the same as before, in the same order, and nothing but the
buffer has changed. -/
structure Unchanged (c : Cells) (h h' : Heap) : Prop where
  agree : AgreeBut c.buffer h h'
  filed : List.Forall₂ (fun p q => q.1 = p.1 ∧ Likens h' p.2 q.2) (filed h c) (filed h' c)

/-- What is like another value stays so while dictionaries are written. -/
theorem Likens.agreeBut {d : Ref} {es : Entries Key Value} {u : Value} (hl : Likens h v u)
    (hd : h.read d = some (.dict es)) (ha : AgreeBut d h h') : Likens h' v u := by
  have hkept : ∀ r items, h.read r = some (.list items) → h'.read r = some (.list items) := by
    intro r items hr
    refine (ha.read_eq r ⟨?_, Heap.lt_size_of_read hr⟩).trans hr
    rintro rfl
    rw [hd] at hr
    cases hr
  rcases hl with rfl | ⟨r, s, items, rfl, rfl, hr, hs⟩
  · exact .inl rfl
  · exact .inr ⟨r, s, items, rfl, rfl, hkept r _ hr, hkept s _ hs⟩

theorem forall₂_likens (h : Heap) (es : Entries String Value) :
    List.Forall₂ (fun p q => q.1 = p.1 ∧ Likens h p.2 q.2) es es :=
  List.forall₂_same.mpr fun _ _ => ⟨rfl, .inl rfl⟩

/-- Writing what is there, or the like, changes neither the names nor their order. -/
theorem forall₂_put {es : Entries String Value} {name : String} {old new : Value}
    (hold : es.get? name = some old) (hnew : Likens h old new) :
    List.Forall₂ (fun p q => q.1 = p.1 ∧ Likens h p.2 q.2) es (es.put name new) := by
  induction es with
  | nil => cases hold
  | cons p rest ih =>
    obtain ⟨n, v⟩ := p
    rw [Entries.get?] at hold
    rw [Entries.put]
    split
    · rw [if_pos ‹_›] at hold
      cases hold
      exact .cons ⟨rfl, hnew⟩ (forall₂_likens h rest)
    · rw [if_neg ‹_›] at hold
      exact .cons ⟨rfl, .inl rfl⟩ (ih hold)

/-- Whether a field that is set to what it reads works out the same value, a list of the same items, or
none if there is nothing to set it to. -/
def Restores (w : World κ) (old? : Option Value) (x : Action κ (Option Value)) : Prop :=
  ∃ v? h', x w = .ok v? { w with heap := h' } ∧ Extends w.heap h' ∧
    ∀ v ∈ v?, ∃ old ∈ old?, Likens h' old v

theorem restores_none {x : Action κ (Option Value)} {old? : Option Value} (hx : x w = .ok none w) :
    Restores w old? x := ⟨none, w.heap, hx, Heap.Agree.refl _ _, fun v hv => by cases hv⟩

theorem restores_same {x : Action κ (Option Value)} (hx : x w = .ok (present? v) w) {old? : Option Value}
    (hv : v = old?.getD .none) : Restores w old? x := by
  refine ⟨_, w.heap, hx, Heap.Agree.refl _ _, fun u hu => ⟨u, ?_, .inl rfl⟩⟩
  obtain ⟨rfl, hne⟩ := present?_eq_some.mp hu
  cases old? with
  | none => exact absurd hv hne
  | some old => exact congrArg some hv.symm

/-- A field that is set to what it reads works out what it has filed. -/
theorem restores_set (b : Value) {old? : Option Value}
    (hfed : Fed w.heap c last? rule old?) (hrule : rule ∈ [.plain, .handle, .list]) (function : String)
    (name : String) :
    ∃ bound, (Object.fieldSignature function rule).bind
        ((setArguments w.heap rule (old?.getD .none)).after b) = .ok bound ∧
      Restores w old? (fieldValue call b name rule bound) := by
  simp only [List.mem_cons, List.not_mem_nil, or_false] at hrule
  rcases hrule with rfl | rfl | rfl
  · exact ⟨⟨[b, old?.getD .none], [], [], []⟩, rfl, restores_same rfl rfl⟩
  · obtain ⟨mark, hmade, rfl⟩ := hfed
    refine ⟨⟨[b, _], [], [], []⟩, rfl, restores_same ?_ rfl⟩
    cases last? with
    | none => rfl
    | some s =>
      have hhandle := handle_handle w.heap s mark
      have hrun : Action.onHeap (Heap.settle (handle w.heap (.text (handleText s) mark))) w =
          .ok (.text (handleText s) mark) w := by
        rw [hhandle]
        exact Object.run_settle hmade
      exact (run_bind_ok run_get).trans (run_bind_ok hrun)
  · cases old? with
    | none => exact ⟨⟨[b], [], [], []⟩, rfl, restores_none rfl⟩
    | some old =>
      obtain ⟨r, items, rfl, -, hread, hitems⟩ := hfed old rfl
      have hcell : w.heap.cell? (.ref r) = some (.list items) := hread
      have harguments : setArguments w.heap .list (.ref r) = .of items := by
        simp [setArguments, Heap.sequence?, hcell]
      rw [Option.getD_some, harguments]
      refine ⟨⟨[b], items, [], []⟩, rfl, ?_⟩
      unfold fieldValue
      dsimp only
      cases hempty : items.isEmpty with
      | true => exact restores_none rfl
      | false =>
        -- the items are flat, so that they are filed as they are
        have hflat : w.heap.flatten items = .ok items := Heap.flatten_singles fun u hu => (hitems u hu).1
        have he := Heap.extends_push w.heap (.list items)
        refine ⟨some (.ref w.heap.next), w.heap.push (.list items), run_bind_ok (Object.run_ask hflat), he,
          fun v hv => ?_⟩
        cases hv
        exact ⟨_, rfl, .inr ⟨r, _, items, rfl, rfl, he.read_of_some hread, Heap.read_alloc_new _ _⟩⟩

/-- Filing what is filed, or the like, changes nothing. -/
theorem unchanged_of_files {name : String} (hb : Intact h kind c) (he : Extends h h') {h'' : Heap}
    (hlike : ∀ v ∈ v?, ∃ old ∈ (filed h c).get? name, Likens h' old v)
    (hf : FilesOnly kind c (v?.toList.map fun v => (name, v)) h' h'') : Unchanged c h h'' := by
  refine ⟨he.agreeBut.trans hf.agree, ?_⟩
  rw [hf.filed_eq, (Files.of_extends hb he).filed_eq]
  cases v? with
  | none => exact forall₂_likens h'' _
  | some v =>
    obtain ⟨old, hold, hl⟩ := hlike v rfl
    obtain ⟨es, hbuffer⟩ := (hb.of_extends he).buffer
    exact forall₂_put hold (hl.agreeBut hbuffer hf.agree)

/-- What a field has filed can be read. -/
theorem Fed.readable {old? : Option Value} (hf : Fed h c last? rule old?)
    (hrule : rule ∈ [.plain, .handle, .list]) :
    rule.reads = true ∧ (old?.getD .none).isMade = true := by
  simp only [List.mem_cons, List.not_mem_nil, or_false] at hrule
  rcases hrule with rfl | rfl | rfl
  · refine ⟨rfl, ?_⟩
    cases old? with
    | none => rfl
    | some v => exact hf v rfl
  · obtain ⟨mark, hmade, rfl⟩ := hf
    refine ⟨rfl, ?_⟩
    cases last? with
    | none => rfl
    | some s => exact hmade
  · refine ⟨rfl, ?_⟩
    cases old? with
    | none => rfl
    | some v =>
      obtain ⟨r, items, rfl, -⟩ := hf v rfl
      rfl

/-- The fields that work out something else than a value of their own: permissions, presets, what a block
builds, and values for platforms. -/
def otherFields : List String :=
  ["robots", "viewport", "charset", "article", "app_name", "app_id", "app_url"]

/-- All others take a value, a handle or a list. -/
theorem rule_of_not_other {name : String} (hrule : kind.field? name = some rule)
    (hname : name ∉ otherFields) : rule ∈ [.plain, .handle, .list] := by
  have hfacts : ∀ kind, ∀ p ∈ BuilderKind.fields kind, p.1 ∉ otherFields →
      p.2 ∈ [FieldRule.plain, .handle, .list] := by
    intro kind
    cases kind <;> decide +kernel
  obtain ⟨p, hfind, rfl⟩ := Option.map_eq_some_iff.mp hrule
  have hp : p.1 = name := by simpa using List.find?_some hfind
  exact hfacts kind p (List.mem_of_find?_eq_some hfind) (hp ▸ hname)

/-- Setting a field to what it reads leaves the buffer of its builder as it was, whatever the named
fields of the builder were used with since it was made.  What a handle reads is the text of the value
that it was given last, with an `@` in front if it has none; in what a list reads there are neither
lists nor tuples. -/
theorem set_read_unchanged (hcall : call.Refuses) {w₀ : World κ} {h₀ : Heap}
    (hcreate : create kind w₀.heap = .ok b h₀)
    (hused : NamedUse call routine kind b { w₀ with heap := h₀ } log w)
    (hrule : kind.field? name.text = some rule) (hname : name.text ∉ otherFields) :
    ∃ (c : Cells) (v u : Value) (h' : Heap), b = .ref c.builder ∧ Placed w.heap kind c ∧
      Object.send (Object.invoke call routine) b name {} w = .ok v w ∧
      Object.send (Object.invoke call routine) b name (setArguments w.heap rule v) w =
        .ok u { w with heap := h' } ∧
      Unchanged c w.heap h' ∧
      (rule = .handle → match lastText log name.text with
        | none => v = .none
        | some s => ∃ mark, v = .text (if s.startsWith "@" then s else "@" ++ s) mark) ∧
      (rule = .list → v = .none ∨ ∃ r items, v = .ref r ∧ w.heap.read r = some (.list items) ∧
        ∀ x ∈ items, w.heap.sequence? x = none) := by
  have hkeeps := rule_of_not_other hrule hname
  obtain ⟨c, rfl, hnew⟩ := create_tended hcreate
  have ht := hused.tended hcall hnew
  have hb := ht.intact
  -- what is filed under the name is what the last call that gave something made of it
  obtain ⟨old?, hold⟩ : ∃ old?, (filed w.heap c).get? name.text = old? := ⟨_, rfl⟩
  have hfed : Fed w.heap c (lastText log name.text) rule old? :=
    hold ▸ ht.fed name.text rule hrule
  have hfiled : filedAt w.heap c name.text = old?.getD .none := by rw [filedAt, hold]
  obtain ⟨hreads, hmade⟩ := hfed.readable hkeeps
  have hread : Object.send (Object.invoke call routine) (.ref c.builder) name {} w =
      .ok (old?.getD .none) w :=
    hfiled ▸ send_getter hb hrule hreads (hfiled ▸ hmade)
  -- given what it read, the field works out a value like the one that it has filed
  obtain ⟨bound, hbind, v?, h₁, hvalue, he, hlike⟩ := restores_set (.ref c.builder) hfed hkeeps
    ((ClassName.builder kind).name ++ "." ++ name.text) name.text
  have hb₁ : Intact ({ w with heap := h₁ } : World κ).heap kind c := hb.of_extends he
  obtain ⟨u, h', hset, hf⟩ := send_field_files hb hrule (signature_field hrule ▸ hbind) hb₁ hvalue
  refine ⟨c, old?.getD .none, u, h', rfl, hb.toPlaced, hread, hset,
    unchanged_of_files hb he (hold ▸ hlike) hf, ?_, ?_⟩
  · rintro rfl
    obtain ⟨mark, -, rfl⟩ := hfed
    cases lastText log name.text with
    | none => rfl
    | some s => exact ⟨mark, rfl⟩
  · rintro rfl
    cases old? with
    | none => exact .inl rfl
    | some v =>
      obtain ⟨r, items, rfl, -, hlist, hitems⟩ := hfed v rfl
      exact .inr ⟨r, items, rfl, hlist, fun x hx => (hitems x hx).1⟩

/-- The world with a builder of cards whose site was given without an `@`. -/
def siteWorld : World Unit :=
  stateAfter (Object.send (Object.invoke unanswered noRoutine) (.ref ⟨2⟩) "site" (.of [.ofText "shop"]))
    (newBuilder .twitterCards)

theorem set_read_unchanged_site : ∃ (c : Cells) (u : Value) (h' : Heap) (mark : Mark),
    Value.ref ⟨2⟩ = .ref c.builder ∧ Placed siteWorld.heap .twitterCards c ∧
    Object.send (Object.invoke unanswered noRoutine) (.ref ⟨2⟩) "site" {} siteWorld =
      .ok (.text "@shop" mark) siteWorld ∧
    Object.send (Object.invoke unanswered noRoutine) (.ref ⟨2⟩) "site" (.of [.text "@shop" mark])
      siteWorld = .ok u { siteWorld with heap := h' } ∧
    Unchanged c siteWorld.heap h' := by
  have hcreate : create .twitterCards voidWorld.heap = .ok (.ref ⟨2⟩) (newBuilder .twitterCards).heap :=
    rfl
  have hargs : (Arguments.of [.ofText "shop"]).All (Offered (newBuilder .twitterCards).heap) :=
    ⟨fun v hv => List.mem_singleton.mp hv ▸ offered_of_isScalar _ rfl, fun _ hp => by cases hp⟩
  have hrule : BuilderKind.twitterCards.field? (Name.ofText "site").text = some .handle := rfl
  have hused : NamedUse unanswered noRoutine .twitterCards (.ref ⟨2⟩) (newBuilder .twitterCards)
      [("site", "shop")] siteWorld := NamedUse.call .start hrule hargs
  obtain ⟨c, v, u, h', hbuilder, hplaced, hread, hset, hsame, hhandle, -⟩ :=
    set_read_unchanged (refuses_invoke _ _) hcreate hused hrule (by decide)
  have htext : (if "shop".startsWith "@" then "shop" else "@" ++ "shop") = "@shop" := by decide +kernel
  obtain ⟨mark, hv⟩ := hhandle rfl
  rw [htext] at hv
  subst hv
  exact ⟨c, u, h', mark, hbuilder, hplaced, hread, hset, hsame⟩

end PageMeta.Builder
