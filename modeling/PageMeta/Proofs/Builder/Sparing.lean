import PageMeta.Proofs.Builder.Filing
import PageMeta.Proofs.Builder.Payload
import PageMeta.Proofs.Schema.Sparing

/-!
# What leaves a builder alone

Checking, copying and building leave everything that a builder leads to as it is, and so does taking a
dictionary from a stored value, if what the value is asked for its keys by does so.  Filling another
builder with a client's block does if the block does.

## Key results

- `Spares`: actions that leave some cells as they are
- `build_spares`, `buildRecord_spares`: building changes no cell that was there
- `updateEntries_spares`: nor does taking a dictionary, `TellsKeys` provided
- `evaluate_spares`: nor does filling a new builder, `Discreet` provided
-/

namespace PageMeta.Builder

open Heap (Extends Agree)

variable {κ α β : Type} {call : Caller κ} {w w' : World κ} {h h' : Heap} {kind : BuilderKind}
  {c : Cells} {v : Value} {part : Ref → Prop}

/-- Whether an action leaves some cells as they are, whether it succeeds or fails. -/
def Spares (part : Ref → Prop) (w : World κ) (x : Action κ α) : Prop :=
  Outcome x w (fun _ w' => Agree part w.heap w'.heap) fun w' => Agree part w.heap w'.heap

/-- The cells that are there. -/
abbrev There (h : Heap) (r : Ref) : Prop := r.index < h.size

namespace Spares

theorem refl {x : Action κ α} {r : EStateM.Result Error (World κ) α} (hx : x w = r)
    (hr : (endState r).heap = w.heap) : Spares part w x := by
  unfold Spares Outcome
  rw [hx]
  cases r <;> exact hr ▸ Agree.refl part w.heap

theorem mono {fewer : Ref → Prop} {x : Action κ α} (hx : Spares part w x)
    (hf : ∀ r, fewer r → part r) : Spares fewer w x :=
  Outcome.mono hx (fun _ _ ha => ha.mono hf) fun _ ha => ha.mono hf

/-- An action in a later world. -/
theorem after {x : Action κ α} (hx : Spares part w' x) (ha : Agree part w.heap w'.heap) :
    Outcome x w' (fun _ w'' => Agree part w.heap w''.heap) fun w'' =>
      Agree part w.heap w''.heap :=
  Outcome.mono hx (fun _ _ => ha.trans) fun _ => ha.trans

theorem bind {x : Action κ α} {f : α → Action κ β} (hx : Spares part w x)
    (hf : ∀ a w', Agree part w.heap w'.heap → Spares part w' (f a)) : Spares part w (x >>= f) :=
  Outcome.bind (Outcome.mono hx (fun a w' ha => (hf a w' ha).after ha) fun _ => id)

theorem discard {x : Action κ α} (hx : Spares part w x) :
    Spares part w (Functor.discard x : Action κ Unit) := Outcome.discard hx

/-- What changes no cell of a heap leaves the cells that are there as they are. -/
theorem onHeap {act : Heap.Action α}
    (ha : Outcome act w.heap (fun _ h' => Extends w.heap h') (Extends w.heap)) :
    Spares (There w.heap) w (Action.onHeap act) := Outcome.onHeap ha

end Spares

/-! ### Building -/

theorem validate_spares (kind : BuilderKind) (b : Value) (w : World κ) :
    Spares part w (Action.onHeap (validate kind b)) := by
  have hrun := validate_run kind b w.heap
  split at hrun
  · split at hrun
    · exact .refl (run_onHeap_ok hrun) rfl
    · exact .refl (run_onHeap_error hrun) rfl
  · exact .refl (run_onHeap_error hrun) rfl

/-- Building changes no cell that was there. -/
theorem build_spares (call : Caller κ) (hp : Placed w.heap kind c) :
    Spares (There w.heap) w (build call (.ref c.builder)) := by
  have hcheck : Spares (There w.heap) w (check call (.ref c.builder)) := by
    rw [Spares, Outcome, check_eq call hp]
    exact (validate_spares kind _ w).discard
  refine hcheck.bind fun _ w₁ he₁ => ?_
  have hlater : ∀ {w₂ : World κ}, Extends w.heap w₂.heap → ∀ r, There w.heap r → There w₂.heap r :=
    fun he r hr => Nat.lt_of_lt_of_le hr he.size_le
  refine Spares.bind ((Spares.onHeap (toDict_extends _ _)).mono (hlater he₁)) fun result w₂ he₂ => ?_
  refine Spares.bind ((Spares.onHeap (Heap.elements_extends _ _)).mono (hlater (he₁.trans he₂)))
    fun keys w₃ he₃ => ?_
  exact .refl rfl rfl

/-- Reading the result of building as a record changes no cell that was there. -/
theorem buildRecord_spares (call : Caller κ) (hp : Placed w.heap kind c) :
    Spares (There w.heap) w (buildRecord call (.ref c.builder)) := by
  cases hschema : Schema.ofBuilder kind with
  | some schema =>
    rw [Spares, Outcome, buildRecord_eq call hschema hp]
    refine (build_spares call hp).bind fun result w₁ he => ?_
    exact (Spares.onHeap ((Schema.read_sparing .usual schema result).outcome _)).mono fun r hr =>
      Nat.lt_of_lt_of_le hr he.size_le
  | none =>
    have hnone : Object.getAttribute (.ref c.builder) "payload_model" w.heap = .ok .none w.heap := by
      have hpublic : Heap.isPrivate "payload_model" = false := by decide +kernel
      have hfacts : (ClassName.builder kind).definer? "payload_model" = none ∧
          Object.classFunction? (.builder kind) "payload_model" = none := by
        cases kind <;> decide +kernel
      have hfound : Object.lookup w.heap (.ref c.builder) "payload_model" = .ok (.stored .none) := by
        simp [Object.lookup, className_builder hp, hfacts, Object.cellAttribute, hp.builder,
          Object.builderAttribute, kept?_public hp hpublic, Object.builderFact?,
          Object.payloadClass, hschema, Object.onBehalf]
      simp only [Object.getAttribute, bind, EStateM.bind, Name.ofText, Heap.ask, hfound]
      rfl
    -- a class without a schema has no records
    exact .refl (run_bind_ok (run_onHeap_ok hnone)) rfl

/-! ### Keys of stored values -/

/-- Whether a value that is asked for its keys leaves alone what a builder leads to, and the new
dictionary that the keys are for. -/
def TellsKeys (call : Caller κ) (c : Cells) (w : World κ) (v : Value) : Prop :=
  ∀ found, (∀ entries, (w.heap.push (.dict [])).cell? v ≠ some (.dict entries)) →
    Object.lookup (w.heap.push (.dict [])) v "keys" = .ok found →
    Spares (fun r => Part w.heap c r ∨ r = w.heap.next) { w with heap := w.heap.push (.dict []) }
      (Object.use call v "keys" found {})

/-- A later heap with a dictionary that was not there before, in which a builder leads to what it led
to. -/
structure Gathers (h : Heap) (c : Cells) (d : Ref) (h' : Heap) : Prop where
  agree : Agree (Part h c) h h'
  new : h.size ≤ d.index
  dict : ∃ entries, h'.read d = some (.dict entries)

namespace Gathers

variable {d : Ref} {h'' : Heap}

theorem of_extends (hg : Gathers h c d h') (he : Extends h' h'') : Gathers h c d h'' :=
  ⟨hg.agree.trans (he.agree fun _ hr => Nat.lt_of_lt_of_le hr.2 hg.agree.size_le), hg.new,
    hg.dict.imp fun _ => he.read_of_some⟩

theorem of_collects (hc : Heap.Collects d h h') : Gathers h c d h' :=
  ⟨Part.agree hc.extends_heap, hc.new, hc.dict⟩

/-- The dictionary is written. -/
theorem put (hg : Gathers h c d h') (entries : Entries Key Value) {failed : Heap → Prop} :
    Outcome (Heap.putEntries d entries) h' (fun _ h'' => Gathers h c d h'') failed := by
  obtain ⟨es, hd⟩ := hg.dict
  have hrun : Heap.putEntries d entries h' = .ok () (h'.write d (.dict entries)) := by
    simp only [Heap.putEntries, Heap.dict?_of_dict hd]
  refine Outcome.of_ok hrun ⟨⟨?_, fun r hr => ?_⟩, hg.new, entries,
    Heap.read_write_self _ _ _ (Heap.lt_size_of_read hd)⟩
  · rw [Heap.size_write]
    exact hg.agree.size_le
  · refine (Heap.read_write_of_ne _ _ _ _ fun heq => ?_).trans (hg.agree.read_eq r hr)
    exact absurd (heq ▸ hr.2) (Nat.not_lt.mpr hg.new)

end Gathers

/-- Writing what a value has under some keys. -/
theorem writeKeyed_gathers {d : Ref} (v : Value) : ∀ (keys : List Value) {h' : Heap},
    Gathers h c d h' →
      Outcome (Object.writeKeyed d v keys) h' (fun _ h'' => Gathers h c d h'') (Gathers h c d)
  | [], _, hg => hg
  | k :: rest, h', hg => by
    refine Outcome.bind (Outcome.ask (fun u _ => Outcome.bind ?_) hg)
    refine (Heap.settle_extends u h').mono (fun u h₁ he => ?_) fun _ hf => hf
    have hg₁ := hg.of_extends he
    refine Outcome.bind (Outcome.ask (fun key _ => Outcome.bind ?_) hg₁)
    exact (hg₁.put _).mono (fun _ _ hg₂ => writeKeyed_gathers v rest hg₂) fun _ hf => hf

/-- Taking a dictionary from a value that tells its keys. -/
theorem updateEntries_spares (hkeys : TellsKeys call c w v) :
    Spares (Part w.heap c) w (Object.updateEntries call v) := by
  have he := Heap.extends_push w.heap (.dict [])
  have hnew : (w.heap.push (.dict [])).read w.heap.next = some (.dict []) := Heap.read_alloc_new _ _
  have hg : Gathers w.heap c w.heap.next (w.heap.push (.dict [])) :=
    ⟨Part.agree he, Nat.le_refl _, [], hnew⟩
  have hfrom : Outcome (Object.updateFrom call w.heap.next v)
      { w with heap := w.heap.push (.dict []) }
      (fun _ w' => Gathers w.heap c w.heap.next w'.heap)
      fun w' => Gathers w.heap c w.heap.next w'.heap := by
    refine Outcome.get_bind ?_
    dsimp only
    split
    · exact Outcome.onHeap (hg.put _)
    · rename_i found hfound hno
      have hspares := hkeys found hno hfound
      -- the new dictionary is still there when the keys have been told
      have htold : ∀ {w₁ : World κ}, Agree (fun r => Part w.heap c r ∨ r = w.heap.next)
          (w.heap.push (.dict [])) w₁.heap → Gathers w.heap c w.heap.next w₁.heap := fun ha =>
        ⟨(Part.agree he).trans (ha.mono fun _ => .inl), Nat.le_refl _, [],
          (ha.read_eq _ (.inr rfl)).trans hnew⟩
      refine Outcome.bind (Outcome.mono hspares (fun answer w₁ ha => Outcome.onHeap ?_)
        fun _ => htold)
      have helements := (Heap.elements_extends answer w₁.heap).mono
        (fun _ _ => (htold ha).of_extends) fun _ => (htold ha).of_extends
      refine Outcome.bind (Outcome.mono (Outcome.tryCatch helements fun e h₁ hg₁ => ?_)
        (fun keys h₁ hg₁ => writeKeyed_gathers v keys hg₁) fun _ => id)
      split <;> exact hg₁
    · split
      · have hc : Heap.Collects w.heap.next w.heap (w.heap.push (.dict [])) :=
          ⟨he, Nat.le_refl _, [], hnew⟩
        refine Outcome.onHeap (Outcome.bind ((Heap.elements_extends v _).mono (fun vs h₁ he₁ => ?_)
          fun _ => hg.of_extends))
        exact (Heap.writePairs_collects vs 0 (hc.trans he₁)).mono (fun _ _ => .of_collects)
          fun _ => .of_collects
      · exact hg
  exact Outcome.bind (Outcome.of_ok rfl (Outcome.bind (hfrom.mono (fun _ _ hg' => hg'.agree)
    fun _ hg' => hg'.agree)))

/-! ### Blocks -/

/-- Whether a value that was made as a builder is still one with the functions of its class, or has
others that leave some cells alone. -/
def Answers (call : Caller κ) (part : Ref → Prop) (w : World κ) (b : Value) : Prop :=
  (∃ kind c, b = .ref (Cells.builder c) ∧ Placed w.heap kind c) ∨
    Spares part w (finish call b) ∧ Spares part w (build call b)

/-- Whether a client's block that fills a new builder, made in a later heap, leaves alone what another
builder leads to. -/
def Discreet (call : Caller κ) (c : Cells) (w : World κ) (h' : Heap) (made : BuilderKind)
    (block : Value) : Prop :=
  ∀ (child : Value) (h₁ : Heap), create made h' = .ok child h₁ →
    Outcome (call block (.of [child])) { w with heap := h₁ }
      (fun _ w₂ => Agree (Part w.heap c) h₁ w₂.heap ∧ Answers call (Part w.heap c) w₂ child)
      fun w₂ => Agree (Part w.heap c) h₁ w₂.heap

/-- Building what was made as a builder leaves some cells alone. -/
theorem Answers.spares {b : Value} (hb : Answers call part w b)
    (hpart : ∀ r, part r → There w.heap r) :
    Spares part w (finish call b) ∧ Spares part w (build call b) := by
  rcases hb with ⟨kind, c, rfl, hp⟩ | hb
  · have hbuild := (build_spares call hp).mono hpart
    refine ⟨?_, hbuild⟩
    rw [Spares, Outcome, finish_eq call hp]
    exact hbuild
  · exact hb

/-- A block, or none, that fills a new builder. -/
theorem evaluate_spares {block child : Value} {h₁ : Heap}
    (hblock : block ≠ .none → Discreet call c w h' kind block)
    (hcreate : create kind h' = .ok child h₁) :
    Outcome (evaluate call child block) { w with heap := h₁ }
      (fun _ w₂ => Agree (Part w.heap c) h₁ w₂.heap ∧ Answers call (Part w.heap c) w₂ child)
      fun w₂ => Agree (Part w.heap c) h₁ w₂.heap := by
  unfold evaluate
  split
  · -- without a block the new builder stays as it was made
    obtain ⟨d, h₂, hrun, -, hd, -⟩ := create_intact kind h'
    rw [hcreate] at hrun
    cases hrun
    exact ⟨Agree.refl _ _, .inl ⟨kind, d, rfl, hd.toPlaced⟩⟩
  · rename_i hne
    exact Outcome.bind (Outcome.discard ((hblock hne child h₁ hcreate).mono
      (fun _ _ hw => hw) fun _ ha => ha))

end PageMeta.Builder
