import PageMeta.Proofs.Registry.Stores

/-!
# Client code that uses the current settings

A mutator is client code, and client code may do whatever the library offers: make stores and write
to them, ask for the current store and for features, reset, and configure again, which runs another
mutator in the middle of the first.  `Session` is the relation of such runs, with their ends; a
nested mutator is again a run of it.  What fails can be caught, so a run goes on in the world that is
left behind.

## Key results

- `Session.later`: what is known after client code
- `exists_obtains`, `reset_later`, `configure_later`: what is known after a step
-/

namespace PageMeta

namespace Registry

open Heap
open Settings (IsStore Orderly Cells Layout)

variable {κ : Type} {w w' w'' : World κ} {call : Caller κ}

/-! ### Sessions -/

/-- What client code does with a store or with the current settings. -/
inductive ClientCall where
  | onStore (s : Ref) (step : Settings.StoreCall)
  | newMap (source : Value)
  | newStore
  | current
  | reset
  | featureState (name store : Value)
  | enabled (name store : Value)

namespace ClientCall

/-- Does what a call says. -/
def run (call : Caller κ) : ClientCall → Action κ Unit
  | onStore s step => step.run call (.ref s)
  | newMap source => Action.onHeap (AttributeMap.MapCall.create source).run
  | newStore => discard (Action.onHeap Store.create)
  | current => discard Registry.current
  | reset => Registry.reset
  | featureState name store => discard (Registry.featureState call name store)
  | enabled name store => discard (Registry.enabled call name store)

/-- Whether a value names a store to be asked: one that is there, or the current one. -/
def Asked (h : Heap) (store : Value) : Prop := store = .none ∨ ∃ s, store = .ref s ∧ IsStore h s

/-- Whether a call is about stores and values that are there. -/
def Given (h : Heap) : ClientCall → Prop
  | onStore s step => IsStore h s ∧ step.Made h
  | newMap source => h.Fine source
  | featureState _ store | enabled _ store => Asked h store
  | newStore | current | reset => True

end ClientCall

/-- How client code can end when it is run in a world. -/
inductive Session (call : Caller κ) : World κ → EStateM.Result Error (World κ) Value → Prop
  | finish (w : World κ) (v : Value) : Session call w (.ok v w)
  | fail (w : World κ) (e : Error) : Session call w (.error e w)
  /-- Something of the client's own. -/
  | own {w : World κ} {r : EStateM.Result Error (World κ) Value} (state : κ)
      (constants : Entries String Value) :
      Session call { w with client := state, constants := constants } r → Session call w r
  /-- Values are built, stores apart. -/
  | build {w : World κ} {r : EStateM.Result Error (World κ) Value} {h' : Heap} :
      Extends w.heap h' → AttributeMap.Arguments w.heap.size h' →
      Adds Settings.NoStore w.heap h' → Session call { w with heap := h' } r → Session call w r
  | call {w : World κ} {r : EStateM.Result Error (World κ) Value} (step : ClientCall) :
      step.Given w.heap → Session call (stateAfter (step.run call) w) r → Session call w r
  /-- The current store is configured by a mutator that is client code again. -/
  | configure {w : World κ} {r : EStateM.Result Error (World κ) Value} (mutator : Value) :
      (∀ s w₁, Registry.current w = .ok s w₁ → Object.isCallable w₁.heap mutator = true →
        Session call w₁ (call mutator (.of [s]) w₁)) →
      Session call (stateAfter (Registry.configure call mutator) w) r → Session call w r

/-- Whether a mutator is client code when it is run on the current store. -/
def Mutates (call : Caller κ) (mutator : Value) (w : World κ) : Prop :=
  ∀ s w₁, Registry.current w = .ok s w₁ → Object.isCallable w₁.heap mutator = true →
    Session call w₁ (call mutator (.of [s]) w₁)

/-! ### What is known later -/

/-- Whether all stores stand, and the current one is one of them. -/
structure Valid (w : World κ) : Prop where
  stores : Orderly w.heap
  current : ∀ s, w.current = some s → IsStore w.heap s

/-- What is written to the log when the current store is given up. -/
def resetRecord : LogRecord := ⟨.debug, logger, "configuration store reset"⟩

/-- Whether a store that is current later was made in between. -/
def Renewed (w w' : World κ) : Prop := ∀ s, w'.current = some s → w.heap.size ≤ s.index

/-- A later world: stores stay, and the log goes on.  If there was no reset in between, the current
store is the same, or the first one; otherwise it is a new one. -/
structure Later (w w' : World κ) : Prop where
  valid : Valid w'
  size_le : w.heap.size ≤ w'.heap.size
  stores : ∀ s, IsStore w.heap s → IsStore w'.heap s
  log : ∃ written, w'.log = w.log ++ written ∧ (resetRecord ∈ written → Renewed w w') ∧
    (resetRecord ∉ written → w'.current = w.current ∨ w.current = none ∧ Renewed w w')

namespace Later

theorem trans (h₁ : Later w w') (h₂ : Later w' w'') : Later w w'' where
  valid := h₂.valid
  size_le := Nat.le_trans h₁.size_le h₂.size_le
  stores s hs := h₂.stores s (h₁.stores s hs)
  log := by
    obtain ⟨first, hlog₁, hreset₁, hsame₁⟩ := h₁.log
    obtain ⟨second, hlog₂, hreset₂, hsame₂⟩ := h₂.log
    -- a store made in the second part was made since the start; one that was current in between is
    -- what the first part says
    have hrenewed : Renewed w' w'' → Renewed w w'' := fun hr s hs =>
      Nat.le_trans h₁.size_le (hr s hs)
    have hkept : w''.current = w'.current → Renewed w w' → Renewed w w'' := fun heq hr s hs =>
      hr s (heq ▸ hs)
    refine ⟨first ++ second, by rw [hlog₂, hlog₁, List.append_assoc], fun hin => ?_, fun hno => ?_⟩
    · by_cases hsecond : resetRecord ∈ second
      · exact hrenewed (hreset₂ hsecond)
      · have hfirst := (List.mem_append.mp hin).resolve_right hsecond
        rcases hsame₂ hsecond with heq | ⟨-, hr⟩
        · exact hkept heq (hreset₁ hfirst)
        · exact hrenewed hr
    · obtain ⟨hfirst, hsecond⟩ := not_or.mp (mt List.mem_append.mpr hno)
      rcases hsame₂ hsecond with heq | ⟨hnone, hr⟩
      · exact (hsame₁ hfirst).imp heq.trans fun hn => ⟨hn.1, hkept heq hn.2⟩
      · exact .inr ⟨(hsame₁ hfirst).elim (fun heq => heq.symm.trans hnone) (·.1), hrenewed hr⟩

/-- Stores that stay, with the current one and the log as they were. -/
theorem of_quiet (hv : Valid w) (ho : Orderly w'.heap) (hsize : w.heap.size ≤ w'.heap.size)
    (hs : ∀ s, IsStore w.heap s → IsStore w'.heap s) (hq : w.Quiet w') : Later w w' where
  valid := ⟨ho, fun s hcur => hs s (hv.current s (hq.current.symm.trans hcur))⟩
  size_le := hsize
  stores := hs
  log := ⟨[], by rw [hq.log, List.append_nil], fun hin => absurd hin List.not_mem_nil,
    fun _ => .inl hq.current⟩

theorem refl (hv : Valid w) : Later w w :=
  .of_quiet hv hv.stores (Nat.le_refl _) (fun _ => id) ⟨rfl, rfl⟩

/-- Heaps without new stores in which what belongs to no map stays. -/
theorem of_keepsFree (hv : Valid w) (hk : KeepsFree w.heap w'.heap)
    (ha : Adds Settings.NoStore w.heap w'.heap) (hq : w.Quiet w') : Later w w' :=
  .of_quiet hv (hv.stores.keepsFree hk ha) hk.size_le
    (fun _ hs => hs.keepsFree hv.stores.sound hk) hq

/-- Some records more, none of a reset. -/
theorem of_log (hv : Valid w) (records : List LogRecord) (hr : resetRecord ∉ records)
    (hheap : w'.heap = w.heap) (hcur : w'.current = w.current) (hlog : w'.log = w.log ++ records) :
    Later w w' where
  valid := ⟨hheap ▸ hv.stores, fun s hs => hheap ▸ hv.current s (hcur.symm.trans hs)⟩
  size_le := by rw [hheap]
  stores s hs := hheap ▸ hs
  log := ⟨records, hlog, fun hin => absurd hin hr, fun _ => .inl hcur⟩

end Later

/-- A store stands somewhere. -/
theorem Valid.layout (hv : Valid w) {s : Ref} (hs : IsStore w.heap s) :
    ∃ (c : Cells) (scalar : String → Value), c.store = s ∧ Layout w.heap c scalar :=
  hv.stores.stands s hs

/-! ### Single steps -/

/-- The current store is at hand. -/
theorem current_of_some {s : Ref} (hs : w.current = some s) :
    current w = .ok (.ref s) w := by
  rw [current, run_bind_ok run_get, hs]
  rfl

/-- What is known after asking for the current store. -/
structure Obtains (s : Ref) (w w' : World κ) : Prop where
  run : current w = .ok (.ref s) w'
  current : w'.current = some s
  later : Later w w'
  /-- A store that was made is a new cell. -/
  new : w.current = none → w.heap.size ≤ s.index
  log : ∃ written, w'.log = w.log ++ written ∧ resetRecord ∉ written

/-- There is always a current store to be had. -/
theorem exists_obtains (hv : Valid w) : ∃ s w', Obtains s w w' := by
  -- either a store is current, or a new one is made and becomes current
  cases hcur : w.current with
  | some s =>
    exact ⟨s, w, current_of_some hcur, hcur, .refl hv, fun hn => (by rw [hcur] at hn; cases hn),
      [], (List.append_nil _).symm, List.not_mem_nil⟩
  | none =>
    obtain ⟨c, scalar, h', hrun, ho, hk, hm, hc⟩ := hv.stores.create
    have hno : resetRecord ∉ [⟨.debug, logger, "created default configuration store"⟩] :=
      fun hin => absurd (List.mem_singleton.mp hin) (by decide)
    have hnew : ∀ s, some c.store = some s → w.heap.size ≤ s.index := fun s hs => by
      cases hs
      exact hm.new
    refine ⟨c.store, ⟨h', some c.store, w.log ++ [⟨.debug, logger,
      "created default configuration store"⟩], w.constants, w.client⟩, ?_, rfl, ?_,
      fun _ => hm.new, _, rfl, hno⟩
    · rw [Registry.current, run_bind_ok run_get, hcur]
      dsimp only
      rw [run_bind_ok (run_onHeap_ok hrun)]
      rfl
    · refine ⟨⟨ho, fun s hs => ?_⟩, hk.size_le, fun _ hs => hs.keepsFree hv.stores.sound hk, _, rfl,
        fun hin => absurd hin hno, fun _ => .inr ⟨hcur, hnew⟩⟩
      cases hs
      exact hc.isStore

/-- Whatever is given as the current store is one. -/
theorem obtains_of_current {s : Value} (hv : Valid w) (hs : current w = .ok s w') :
    ∃ r, s = .ref r ∧ Obtains r w w' := by
  obtain ⟨r, w'', ho⟩ := exists_obtains hv
  have hsame := hs.symm.trans ho.run
  cases hsame
  exact ⟨r, rfl, ho⟩

/-- The current store is there. -/
theorem Obtains.isStore {s : Ref} (ho : Obtains s w w') : IsStore w'.heap s :=
  ho.later.valid.current s ho.current

/-- A reset gives the current store up. -/
theorem reset_later (hv : Valid w) : Later w (stateAfter reset w) where
  valid := ⟨hv.stores, fun s hs => by cases hs⟩
  size_le := Nat.le_refl _
  stores _ hs := hs
  log := ⟨[resetRecord], rfl, fun _ s hs => (by cases hs),
    fun hno => absurd (List.mem_singleton.mpr rfl) hno⟩

/-- Asking for a feature changes nothing, but there may be a current store afterwards. -/
theorem featureState_later (hv : Valid w) (name : Value) {store : Value}
    (ha : ClientCall.Asked w.heap store) :
    Outcome (featureState call name store) w (fun _ w' => Later w w') (Later w) := by
  unfold featureState
  split
  · exact Outcome.pure (.refl hv)
  · rename_i feature hname
    have hquery : ∀ {w' : World κ} {s : Ref}, Later w w' → IsStore w'.heap s →
        Outcome (do return if ← queryFeature call (.ref s) feature then FeatureState.enabled
          else .disabled) w' (fun _ w' => Later w w') (Later w) := by
      intro w' s hl hs
      obtain ⟨c, scalar, rfl, hc⟩ := hl.valid.layout hs
      exact Outcome.bind (Outcome.of_ok
        (Settings.queryFeature_ok call hc (List.mem_of_find?_eq_some hname)) hl)
    rcases ha with rfl | ⟨s, rfl, hs⟩
    · obtain ⟨s, w₁, ho⟩ := exists_obtains hv
      exact Outcome.bind (Outcome.of_ok ho.run (hquery ho.later ho.isStore))
    · exact hquery (.refl hv) hs

/-- A question about a feature that is unknown leaves a warning. -/
theorem enabled_later (hv : Valid w) (name : Value) {store : Value}
    (ha : ClientCall.Asked w.heap store) :
    Outcome (enabled call name store) w (fun _ w' => Later w w') (Later w) := by
  refine Outcome.bind ((featureState_later hv name ha).mono (fun state w₁ hl => ?_) fun _ => id)
  split
  · refine Outcome.get_bind (hl.trans (.of_log hl.valid [_] ?_ rfl rfl rfl))
    intro hin
    cases congrArg LogRecord.level (List.mem_singleton.mp hin)
  · exact Outcome.pure hl

theorem ClientCall.later (call : Caller κ) (hv : Valid w) {step : ClientCall} (hg : step.Given w.heap) :
    Later w (stateAfter (step.run call) w) := by
  -- one case for each call: what it does to the heap keeps the stores in order
  cases step with
  | onStore s step =>
    obtain ⟨c, scalar, rfl, hc⟩ := hv.layout hg.1
    obtain ⟨he, hq⟩ := step.after_edits call hv.stores.sound hc hg.2
    rw [Settings.StoreCall.after_eq] at he hq
    exact .of_quiet hv (hv.stores.edits hc he) he.size_le
      (fun _ hs => hs.edits hv.stores.sound hc he) hq
  | newMap source =>
    have hlater : ∀ w' : World κ, KeepsObjects w.heap w'.heap ∧ w.Quiet w' → Later w w' :=
      fun w' hk => .of_keepsFree hv hk.1.toKeepsFree
        (hk.1.adds.mono fun _ => Settings.noStore_of_isContainer) hk.2
    exact Outcome.stateAfter (Outcome.onHeap (Outcome.discard
      ((AttributeMap.create_keepsObjects hv.stores.sound hg).mono
        (fun _ h' hk => hlater { w with heap := h' } ⟨hk, rfl, rfl⟩)
        fun h' hk => hlater { w with heap := h' } ⟨hk, rfl, rfl⟩)))
  | newStore =>
    obtain ⟨c, scalar, h', hrun, ho, hk, -, -⟩ := hv.stores.create
    have hmake : ClientCall.newStore.run call w = .ok () { w with heap := h' } :=
      run_discard_ok (run_onHeap_ok hrun)
    rw [stateAfter_eq hmake]
    exact .of_quiet hv ho hk.size_le (fun _ hs => hs.keepsFree hv.stores.sound hk) ⟨rfl, rfl⟩
  | current =>
    obtain ⟨s, w₁, ho⟩ := exists_obtains hv
    exact Outcome.stateAfter (Outcome.discard (Outcome.of_ok ho.run ho.later))
  | reset => exact reset_later hv
  | featureState name store =>
    exact Outcome.stateAfter (Outcome.discard (featureState_later hv name hg))
  | enabled name store =>
    exact Outcome.stateAfter (Outcome.discard (enabled_later hv name hg))

/-! ### Configuring -/

theorem configure_none {s : Value} (hs : current w = .ok s w') :
    configure call .none w = .ok s w' := by
  rw [configure, run_bind_ok hs]
  rfl

/-- A mutator is run on the current store, which is checked afterwards. -/
theorem configure_of_current {mutator s : Value} (hs : current w = .ok s w')
    (hm : mutator ≠ .none) : configure call mutator w =
      if Object.isCallable w'.heap mutator then
        (do discard (call mutator (.of [s]))
            check call s
            let h := (← get).heap
            Action.record .debug logger ("configuration updated: " ++ h.written s)
            return s) w'
      else .error (.mutatorNotCallable (w'.heap.typeName mutator)) w' := by
  rw [configure, run_bind_ok hs]
  split
  · exact absurd rfl hm
  · rw [run_bind_ok run_get]
    cases Object.isCallable w'.heap mutator <;> rfl

/-- A store that is checked stays as it is, and so does what is current.  It passes only if nothing
is wrong with it. -/
theorem check_outcome (call : Caller κ) (hv : Valid w) {c : Cells} {scalar : String → Value}
    (hc : Layout w.heap c scalar) :
    Outcome (check call (.ref c.store)) w
      (fun _ w' => w' = w ∧ Settings.faults w.heap c scalar = .ok [])
      fun w' => Later w w' ∧ w'.current = w.current := by
  have hcheck := Settings.validate_eq call hv.stores.sound hc
  rw [Outcome, Settings.check_eq call hc]
  refine Outcome.discard ?_
  rw [Outcome, hcheck]
  cases Settings.faults w.heap c scalar with
  | error e => exact ⟨.refl hv, rfl⟩
  | ok broken =>
    cases broken with
    | nil => exact ⟨rfl, rfl⟩
    | cons first rest =>
      -- the complaint goes to the logger of stores
      refine ⟨.of_log hv [_] (fun hin => ?_) rfl rfl rfl, rfl⟩
      have hlogger : logger = Settings.logger :=
        congrArg LogRecord.logger (List.mem_singleton.mp hin)
      exact absurd hlogger (by decide)

/-- What is written about an update is not what is written about a reset. -/
theorem resetRecord_ne_updated (s : String) :
    resetRecord ≠ ⟨.debug, logger, "configuration updated: " ++ s⟩ := by
  intro heq
  have hchars := congrArg (fun record : LogRecord => record.message.toList.take 15) heq
  rw [String.toList_append, List.take_append_of_le_length (by decide)] at hchars
  exact absurd hchars (by decide)

/-- What is known of a mutator is known of the whole. -/
theorem configure_later {mutator : Value} (hv : Valid w)
    (hm : ∀ s w₁, current w = .ok s w₁ → Object.isCallable w₁.heap mutator = true →
      Later w₁ (endState (call mutator (.of [s]) w₁))) :
    Outcome (configure call mutator) w (fun _ w' => Later w w') (Later w) := by
  obtain ⟨s, w₁, ho⟩ := exists_obtains hv
  have hs := ho.run
  have hl := ho.later
  by_cases hnone : mutator = .none
  · subst hnone
    exact Outcome.of_ok (configure_none hs) hl
  cases hcallable : Object.isCallable w₁.heap mutator with
  | false =>
    rw [Outcome, configure_of_current hs hnone, if_neg (Bool.not_eq_true _ ▸ hcallable)]
    exact hl
  | true =>
    rw [Outcome, configure_of_current hs hnone, if_pos hcallable]
    have hmutator : Outcome (call mutator (.of [.ref s])) w₁ (fun _ w' => Later w₁ w') (Later w₁) :=
      .of_endState (hm _ w₁ hs hcallable)
    refine Outcome.bind (Outcome.discard (hmutator.mono (fun _ w₂ hl₂ => ?_) fun _ => hl.trans))
    obtain ⟨c, scalar, rfl, hc⟩ := hl₂.valid.layout (hl₂.stores s ho.isStore)
    refine Outcome.bind ((check_outcome call hl₂.valid hc).mono (fun _ w₃ hw₃ => ?_)
      fun _ hl₃ => (hl.trans hl₂).trans hl₃.1)
    -- a store that passes is reported, with a record that is not the one of a reset
    obtain ⟨rfl, -⟩ := hw₃
    refine (hl.trans hl₂).trans (.of_log hl₂.valid [_] (fun hin => ?_) rfl rfl rfl)
    exact resetRecord_ne_updated _ (List.mem_singleton.mp hin)

/-! ### Whole sessions -/

/-- Whatever client code does, and however it ends, the world is a later one. -/
theorem Session.later {r : EStateM.Result Error (World κ) Value} (hs : Session call w r)
    (hv : Valid w) : Later w (endState r) := by
  induction hs with
  | finish w v => exact .refl hv
  | fail w e => exact .refl hv
  | @own w r state constants _ ih =>
    have hstep : Later w { w with client := state, constants := constants } :=
      .of_quiet hv hv.stores (Nat.le_refl _) (fun _ => id) ⟨rfl, rfl⟩
    exact hstep.trans (ih hstep.valid)
  | @build w r h' he hn ha _ ih =>
    have hgrows := AttributeMap.grows_of_arguments hv.stores.sound he hn
    have hstep : Later w { w with heap := h' } := .of_keepsFree hv hgrows.keepsFree ha ⟨rfl, rfl⟩
    exact hstep.trans (ih hstep.valid)
  | call step hg _ ih =>
    have hstep := ClientCall.later call hv hg
    exact hstep.trans (ih hstep.valid)
  | configure mutator hm _ ihm ih =>
    -- the nested mutator runs in the world in which the current store was asked for
    have hmutator : ∀ s w₁, current _ = .ok s w₁ → Object.isCallable w₁.heap mutator = true →
        Later w₁ (endState (call mutator (.of [s]) w₁)) := fun s w₁ hcur hcallable => by
      obtain ⟨r, rfl, ho⟩ := obtains_of_current hv hcur
      exact ihm _ _ hcur hcallable ho.later.valid
    have hstep := (configure_later hv hmutator).stateAfter
    exact hstep.trans (ih hstep.valid)

end Registry

end PageMeta
