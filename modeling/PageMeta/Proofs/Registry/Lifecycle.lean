import PageMeta.Proofs.Registry.Configure
import PageMeta.Proofs.Settings.Configuring
import PageMeta.Proofs.Settings.Edits

/-!
# The life of the current store

Between two resets there is one current store: whatever is called returns it or asks it, also after
a mutator or the check has failed.  The first access after a reset makes a new store with the default
settings, whatever was written to the stores before.  A question about an unknown feature or about a
given store leaves the current store alone.

A run has calls on the current settings, and any work of the client in between, such as writing to
the stores and containers that it holds.  A mutator is such work too.

## Key results

- `Work.stays`: the work of a client leaves all stores standing and does not change which is current
- `access_spec`: every access is the same access on one store, which is current afterwards
- `Run.stays`: without a reset the current store stays
- `lifecycle`: which store is used, at any point of any run
-/

namespace PageMeta

namespace Registry

open Heap
open Settings (IsStore Orderly Cells Layout Edit)

variable {κ : Type} {w w' w₁ w₂ : World κ} {call : Caller κ}

/-! ### The work of a client -/

/-- A step of a client that calls nothing about the current settings: it does something of its own
or to its containers, builds values, makes maps and stores, or writes to a store. -/
inductive Work (call : Caller κ) (w : World κ) : World κ → Prop
  | own (state : κ) (constants : Entries String Value) (log : List LogRecord) :
      Work call w { w with client := state, constants := constants, log := log }
  | edit {h' : Heap} : Edit w.heap h' → Work call w { w with heap := h' }
  | build {h' : Heap} : Extends w.heap h' → AttributeMap.Arguments w.heap.size h' →
      Adds Settings.NoStore w.heap h' → Work call w { w with heap := h' }
  | newMap (source : Value) : w.heap.Fine source →
      Work call w (stateAfter (ClientCall.run call (.newMap source)) w)
  | newStore : Work call w (stateAfter (ClientCall.run call .newStore) w)
  | write (s : Ref) (step : Settings.StoreCall) : IsStore w.heap s → step.Made w.heap →
      Work call w (step.after call (.ref s) w)

/-- Any number of steps. -/
inductive Works (call : Caller κ) : World κ → World κ → Prop
  | done (w : World κ) : Works call w w
  | step {w w₁ w₂ : World κ} : Work call w w₁ → Works call w₁ w₂ → Works call w w₂

/-- A later world in which all stores stand that stood before, and the same one is current. -/
structure Stays (w w' : World κ) : Prop where
  valid : Valid w'
  size_le : w.heap.size ≤ w'.heap.size
  stores : ∀ s, IsStore w.heap s → IsStore w'.heap s
  current : w'.current = w.current

namespace Stays

theorem of_orderly (hv : Valid w) (ho : Orderly w'.heap) (hsize : w.heap.size ≤ w'.heap.size)
    (hs : ∀ s, IsStore w.heap s → IsStore w'.heap s) (hcur : w'.current = w.current) :
    Stays w w' :=
  ⟨⟨ho, fun s heq => hs s (hv.current s (hcur.symm.trans heq))⟩, hsize, hs, hcur⟩

theorem refl (hv : Valid w) : Stays w w := ⟨hv, Nat.le_refl _, fun _ => id, rfl⟩

theorem trans (h₁ : Stays w w₁) (h₂ : Stays w₁ w₂) : Stays w w₂ :=
  ⟨h₂.valid, Nat.le_trans h₁.size_le h₂.size_le, fun s hs => h₂.stores s (h₁.stores s hs),
    h₂.current.trans h₁.current⟩

end Stays

/-- What a client does leaves all stores standing, and the same one current. -/
theorem Work.stays (hw : Work call w w') (hv : Valid w) : Stays w w' := by
  -- one case for each thing that is done: each keeps the stores in order, and all that is current
  cases hw with
  | own state constants log => exact ⟨⟨hv.stores, hv.current⟩, Nat.le_refl _, fun _ => id, rfl⟩
  | edit he =>
    refine .of_orderly hv (he.orderly hv.stores) ?_ (fun s hs => he.isStore_iff.mpr hs) rfl
    exact Nat.le_of_eq he.size_eq.symm
  | build he hn ha =>
    have hk := (AttributeMap.grows_of_arguments hv.stores.sound he hn).keepsFree
    exact .of_orderly hv (hv.stores.keepsFree hk ha) hk.size_le
      (fun _ hs => hs.keepsFree hv.stores.sound hk) rfl
  | newMap source hsource =>
    have hmade : ∀ w' : World κ, KeepsObjects w.heap w'.heap ∧ w.Quiet w' → Stays w w' := by
      intro w' hk
      have hkeeps := hk.1.toKeepsFree
      have hadds := hk.1.adds.mono fun _ => Settings.noStore_of_isContainer
      exact .of_orderly hv (hv.stores.keepsFree hkeeps hadds) hkeeps.size_le
        (fun _ hs => hs.keepsFree hv.stores.sound hkeeps) hk.2.current
    have hcreate := AttributeMap.create_keepsObjects hv.stores.sound hsource
    exact ((Outcome.discard hcreate).onHeap_quiet.mono (fun _ => hmade) hmade).stateAfter
  | newStore =>
    obtain ⟨c, scalar, h', hrun, ho, hk, -, -⟩ := hv.stores.create
    have hmake : ClientCall.newStore.run call w = .ok () { w with heap := h' } :=
      run_discard_ok (run_onHeap_ok hrun)
    rw [stateAfter_eq hmake]
    exact .of_orderly hv ho hk.size_le (fun _ hs => hs.keepsFree hv.stores.sound hk) rfl
  | write s step hs hm =>
    obtain ⟨c, scalar, rfl, hc⟩ := hv.layout hs
    obtain ⟨he, hq⟩ := step.after_edits call hv.stores.sound hc hm
    exact .of_orderly hv (hv.stores.edits hc he) he.size_le
      (fun _ hr => hr.edits hv.stores.sound hc he) hq.current

theorem Works.stays (hw : Works call w w') (hv : Valid w) : Stays w w' := by
  induction hw with
  | done w => exact .refl hv
  | step hstep _ ih =>
    have hstays := hstep.stays hv
    exact hstays.trans (ih hstays.valid)

/-! ### Accesses -/

/-- The calls that return the current store or ask it. -/
inductive Access where
  | current
  | configure (mutator : Value)
  | featureState (name : Value)
  | enabled (name : Value)

namespace Access

/-- Does what a call says. -/
def run (call : Caller κ) : Access → Action κ Value
  | current => Registry.current
  | configure mutator => Registry.configure call mutator
  | featureState name => .feature <$> Registry.featureState call name .none
  | enabled name => .bool <$> Registry.enabled call name .none

/-- Does the same with a given store: gives it, changes it by a mutator and checks it, or asks it. -/
def on (call : Caller κ) (s : Value) : Access → Action κ Value
  | current => pure s
  | configure .none => pure s
  | configure mutator => fun w =>
    if Object.isCallable w.heap mutator then
      (do discard (call mutator (.of [s]))
          check call s
          let h := (← get).heap
          Action.record .debug logger ("configuration updated: " ++ h.written s)
          return s) w
    else .error (.mutatorNotCallable (w.heap.typeName mutator)) w
  | featureState name => .feature <$> Registry.featureState call name s
  | enabled name => .bool <$> Registry.enabled call name s

/-- Whether a call is about the current store.  A mutator does some work, and can fail at any time;
a name is the name of a feature. -/
def Allowed (call : Caller κ) (w : World κ) : Access → Prop
  | current => True
  | configure mutator => ∀ s w₁, Registry.current w = .ok s w₁ →
      Object.isCallable w₁.heap mutator = true →
      Works call w₁ (endState (call mutator (.of [s]) w₁))
  | featureState name | enabled name => namedFeature? name ≠ none

end Access

/-- A call on the current settings uses a store: this store is current, or is made now and becomes
current, and the call does what it does with this store. -/
def Uses (call : Caller κ) (w : World κ) (access : Access) (s : Ref) (w₁ : World κ) : Prop :=
  Registry.current w = .ok (.ref s) w₁ ∧ w₁.current = some s ∧
    access.run call w = access.on call (.ref s) w₁

/-- A question about a feature of the current store is the question to this store. -/
theorem featureState_of_current (call : Caller κ) {name : Value} {s : Ref} (hs : current w = .ok (.ref s) w₁)
    (hname : namedFeature? name ≠ none) :
    featureState call name .none w = featureState call name (.ref s) w₁ := by
  obtain ⟨feature, hfeature⟩ := Option.ne_none_iff_exists'.mp hname
  rw [featureState, featureState, hfeature]
  dsimp only
  rw [run_bind_ok hs]
  rfl

theorem enabled_of_current (call : Caller κ) {name : Value} {s : Ref} (hs : current w = .ok (.ref s) w₁)
    (hname : namedFeature? name ≠ none) :
    enabled call name .none w = enabled call name (.ref s) w₁ := by
  simp only [enabled, bind, EStateM.bind, featureState_of_current call hs hname]

/-- Whether a question is not about the current store: its name is unknown, or a store is given. -/
def Aside (h : Heap) (name store : Value) : Prop :=
  namedFeature? name = none ∨ ∃ s, store = .ref s ∧ IsStore h s

/-- Such a question is answered, and changes nothing. -/
theorem featureState_aside (call : Caller κ) {name store : Value} (hv : Valid w)
    (ha : Aside w.heap name store) :
    ∃ state, featureState call name store w = .ok state w := by
  cases hname : namedFeature? name with
  | none => exact ⟨.unknown, by rw [featureState, hname]; rfl⟩
  | some feature =>
    obtain hnone | ⟨s, rfl, hs⟩ := ha
    · rw [hname] at hnone
      cases hnone
    · obtain ⟨c, scalar, rfl, hc⟩ := hv.layout hs
      have hquery := Settings.queryFeature_ok call hc (List.mem_of_find?_eq_some hname)
      rw [featureState, hname]
      dsimp only
      exact ⟨_, run_bind_ok hquery⟩

/-- If it is asked whether the feature is on, a warning may be written. -/
theorem enabled_aside (call : Caller κ) {name store : Value} (hv : Valid w)
    (ha : Aside w.heap name store) :
    ∃ on log, enabled call name store w = .ok on { w with log := log } := by
  obtain ⟨state, hstate⟩ := featureState_aside call hv ha
  rw [enabled, run_bind_ok hstate]
  split
  · exact ⟨_, _, rfl⟩
  · exact ⟨_, w.log, rfl⟩

/-- What is known after a mutator is known after the whole: the check leaves the store. -/
theorem configure_stays (call : Caller κ) (mutator : Value) {s : Ref} (hv : Valid w)
    (hs : current w = .ok (.ref s) w) (hstore : IsStore w.heap s)
    (hm : ∀ s w₁, current w = .ok s w₁ → Object.isCallable w₁.heap mutator = true →
      Works call w₁ (endState (call mutator (.of [s]) w₁))) :
    Stays w (stateAfter (configure call mutator) w) := by
  by_cases hnone : mutator = .none
  · subst hnone
    rw [stateAfter_eq (configure_none hs)]
    exact .refl hv
  have hall : Outcome (configure call mutator) w (fun _ => Stays w) (Stays w) := by
    rw [Outcome, configure_of_current hs hnone]
    by_cases hcallable : Object.isCallable w.heap mutator = true
    · rw [if_pos hcallable]
      have hmutator : Outcome (call mutator (.of [.ref s])) w (fun _ => Stays w) (Stays w) :=
        .of_endState ((hm _ w hs hcallable).stays hv)
      refine Outcome.bind (Outcome.discard (hmutator.mono (fun _ w₂ hstays => ?_) fun _ => id))
      obtain ⟨c, scalar, rfl, hc⟩ := hstays.valid.layout (hstays.stores s hstore)
      -- the store is checked after the mutator has run, whatever it has left in it
      refine Outcome.bind ((check_outcome call hstays.valid hc).mono (fun _ w₃ hsame => ?_)
        fun w₃ hl => ?_)
      · obtain ⟨rfl, -⟩ := hsame
        exact hstays.trans ⟨⟨hstays.valid.stores, hstays.valid.current⟩, Nat.le_refl _,
          fun _ => id, rfl⟩
      · exact hstays.trans ⟨hl.1.valid, hl.1.size_le, hl.1.stores, hl.2⟩
    · rw [if_neg hcallable]
      exact .refl hv
  exact hall.stateAfter

/-- A call on the current settings uses the store that is current then, and leaves it current. -/
theorem access_spec {access : Access} (hv : Valid w) (ha : access.Allowed call w) :
    ∃ s w₁, Obtains s w w₁ ∧ access.run call w = access.on call (.ref s) w₁ ∧
      Stays w₁ (stateAfter (access.run call) w) := by
  obtain ⟨s, w₁, ho⟩ := exists_obtains hv
  have hv₁ := ho.later.valid
  have hstore := ho.isStore
  refine ⟨s, w₁, ho, ?_⟩
  cases access with
  | current =>
    refine ⟨ho.run, ?_⟩
    rw [stateAfter_eq (show Access.current.run call w = .ok (.ref s) w₁ from ho.run)]
    exact .refl hv₁
  | configure mutator =>
    have hagain : current w₁ = .ok (.ref s) w₁ := current_of_some ho.current
    -- asking once more for the store changes nothing, so the call starts where the store is there
    have hsame : configure call mutator w = configure call mutator w₁ := by
      unfold configure
      rw [run_bind_ok ho.run, run_bind_ok hagain]
    have hon : configure call mutator w₁ = (Access.configure mutator).on call (.ref s) w₁ := by
      by_cases hnone : mutator = .none
      · subst hnone
        exact configure_none hagain
      · rw [configure_of_current hagain hnone]
        cases mutator <;> first | exact absurd rfl hnone | rfl
    refine ⟨hsame.trans hon, ?_⟩
    have hstays := configure_stays call mutator hv₁ hagain hstore ?_
    · simp only [Access.run, stateAfter, hsame] at hstays ⊢
      exact hstays
    · intro t w₂ ht hcallable
      rw [hagain] at ht
      cases ht
      exact ha _ _ ho.run hcallable
  | featureState name =>
    obtain ⟨state, hstate⟩ :=
      featureState_aside call hv₁ (show Aside w₁.heap name (.ref s) from .inr ⟨s, rfl, hstore⟩)
    have hrun := (featureState_of_current call ho.run ha).trans hstate
    have hon : (Access.featureState name).run call w = .ok (.feature state) w₁ := by
      simp only [Access.run, Functor.map, EStateM.map, hrun]
    refine ⟨hon.trans ?_, ?_⟩
    · simp only [Access.on, Functor.map, EStateM.map, hstate]
    · rw [stateAfter_eq hon]
      exact .refl hv₁
  | enabled name =>
    obtain ⟨on, log, henabled⟩ :=
      enabled_aside call hv₁ (show Aside w₁.heap name (.ref s) from .inr ⟨s, rfl, hstore⟩)
    have hrun := (enabled_of_current call ho.run ha).trans henabled
    have hon : (Access.enabled name).run call w = .ok (.bool on) { w₁ with log := log } := by
      simp only [Access.run, Functor.map, EStateM.map, hrun]
    refine ⟨hon.trans ?_, ?_⟩
    · simp only [Access.on, Functor.map, EStateM.map, henabled]
    · rw [stateAfter_eq hon]
      exact ⟨⟨hv₁.stores, hv₁.current⟩, Nat.le_refl _, fun _ => id, rfl⟩

/-! ### Runs -/

/-- What a step of a run is. -/
inductive Event where
  | work
  | reset
  | access
  | question
deriving DecidableEq

/-- A step of a run: work of the client, a reset, an access to the current store, or a question that
is not about the current store. -/
inductive Step (call : Caller κ) (w : World κ) : Event → World κ → Prop
  | work {w' : World κ} : Work call w w' → Step call w .work w'
  | reset : Step call w .reset (stateAfter Registry.reset w)
  | access (access : Access) : access.Allowed call w →
      Step call w .access (stateAfter (access.run call) w)
  | featureState (name store : Value) : Aside w.heap name store →
      Step call w .question (stateAfter (Registry.featureState call name store) w)
  | enabled (name store : Value) : Aside w.heap name store →
      Step call w .question (stateAfter (Registry.enabled call name store) w)

/-- Steps one after another. -/
inductive Run (call : Caller κ) : World κ → List Event → World κ → Prop
  | nil (w : World κ) : Run call w [] w
  | cons {w w₁ w₂ : World κ} {event : Event} {events : List Event} : Step call w event w₁ →
      Run call w₁ events w₂ → Run call w (event :: events) w₂

/-- What is known after a step. -/
structure After (event : Event) (w w' : World κ) : Prop where
  valid : Valid w'
  size_le : w.heap.size ≤ w'.heap.size
  stores : ∀ s, IsStore w.heap s → IsStore w'.heap s
  /-- Nothing but a reset gives the current store up. -/
  kept : event ≠ .reset → ∀ s, w.current = some s → w'.current = some s
  /-- Nothing but an access makes one. -/
  none : event ≠ .access → w.current = none → w'.current = none

theorem Stays.after (hs : Stays w w') (event : Event) : After event w w' :=
  ⟨hs.valid, hs.size_le, hs.stores, fun _ _ heq => hs.current.trans heq,
    fun _ heq => hs.current.trans heq⟩

theorem Step.after {event : Event} (hstep : Step call w event w') (hv : Valid w) :
    After event w w' := by
  -- only a reset gives the current store up, and only getting access makes one
  cases hstep with
  | work hwork => exact (hwork.stays hv).after _
  | reset =>
    have hl := reset_later hv
    exact ⟨hl.valid, hl.size_le, hl.stores, fun hne => absurd rfl hne, fun _ _ => rfl⟩
  | access access ha =>
    obtain ⟨s, w₁, ho, -, hstays⟩ := access_spec hv ha
    refine ⟨hstays.valid, Nat.le_trans ho.later.size_le hstays.size_le,
      fun r hr => hstays.stores r (ho.later.stores r hr), fun _ r hr => ?_,
      fun hne => absurd rfl hne⟩
    have hrun := ho.run
    rw [current_of_some hr] at hrun
    cases hrun
    exact hstays.current.trans hr
  | featureState name store ha =>
    obtain ⟨state, hrun⟩ := featureState_aside call hv ha
    rw [stateAfter_eq hrun]
    exact (Stays.refl hv).after _
  | enabled name store ha =>
    obtain ⟨on, log, hrun⟩ := enabled_aside call hv ha
    have hstays : Stays w { w with log := log } :=
      ⟨⟨hv.stores, hv.current⟩, Nat.le_refl _, fun _ => id, rfl⟩
    rw [stateAfter_eq hrun]
    exact hstays.after _

variable {events : List Event}

/-- All worlds of a run are valid, and stores stay. -/
theorem Run.stores (hr : Run call w events w') (hv : Valid w) :
    Valid w' ∧ ∀ s, IsStore w.heap s → IsStore w'.heap s := by
  induction hr with
  | nil w => exact ⟨hv, fun _ => id⟩
  | cons hstep _ ih =>
    have hafter := hstep.after hv
    obtain ⟨hv', hstores⟩ := ih hafter.valid
    exact ⟨hv', fun s hs => hstores s (hafter.stores s hs)⟩

/-- Without a reset the current store stays. -/
theorem Run.kept {s : Ref} (hr : Run call w events w') (hv : Valid w) (hs : w.current = some s)
    (hno : .reset ∉ events) : w'.current = some s := by
  induction hr with
  | nil w => exact hs
  | cons hstep _ ih =>
    obtain ⟨hne, hrest⟩ := List.ne_and_not_mem_of_not_mem_cons hno
    have hafter := hstep.after hv
    exact ih hafter.valid (hafter.kept hne.symm s hs) hrest

/-- Without an access there is no current store if there was none. -/
theorem Run.none (hr : Run call w events w') (hv : Valid w) (hs : w.current = none)
    (hno : .access ∉ events) : w'.current = none := by
  induction hr with
  | nil w => exact hs
  | cons hstep _ ih =>
    obtain ⟨hne, hrest⟩ := List.ne_and_not_mem_of_not_mem_cons hno
    have hafter := hstep.after hv
    exact ih hafter.valid (hafter.none hne.symm hs) hrest

/-- A store that is made now holds the default settings. -/
theorem toDict_of_new {s : Ref} (hv : Valid w) (hnone : w.current = none)
    (hs : current w = .ok (.ref s) w₁) :
    ∃ data w₂, Settings.toDict call (.ref s) w₁ = .ok data w₂ ∧
      IsData w₂.heap Settings.defaults data := by
  obtain ⟨c, h', hcreate, -, hstands, -⟩ := Settings.create_stands hv.stores.sound
  obtain ⟨w', hcurrent, rfl, -⟩ := Settings.current_ok hnone hcreate
  rw [hs] at hcurrent
  cases hcurrent
  obtain ⟨data, h₂, hdump, -, hdata⟩ := Settings.toDict_data call hstands
  exact ⟨data, _, hdump, hdata⟩

/-- What holds at some point of a run. -/
structure Lives (call : Caller κ) (w₀ w : World κ) : Prop where
  /-- The store that a call uses is the one that every later call uses until there is a reset. -/
  one : ∀ access : Access, access.Allowed call w → ∃ s w₁, Uses call w access s w₁ ∧
    ∀ between w', Run call (stateAfter (access.run call) w) between w' → .reset ∉ between →
      ∀ next : Access, next.Allowed call w' → Uses call w' next s w'
  /-- After a reset the first call uses a store that was never there before and is written down as
  the default settings. -/
  fresh : ∀ between w', Run call (stateAfter reset w) between w' → .access ∉ between →
    ∀ access : Access, access.Allowed call w' → ∃ s w₁, Uses call w' access s w₁ ∧
      (∀ r, IsStore w₀.heap r ∨ IsStore w.heap r ∨ IsStore w'.heap r → r ≠ s) ∧
      ∃ data w₂, Settings.toDict call (.ref s) w₁ = .ok data w₂ ∧
        IsData w₂.heap Settings.defaults data
  /-- A question that is not about the current store changes nothing; it may leave a warning. -/
  aside : ∀ name store, Aside w.heap name store →
    (∃ state, featureState call name store w = .ok state w) ∧
      ∃ on log, enabled call name store w = .ok on { w with log := log }

/-- Between two resets all calls use one store, a reset gives way to a new store with the default
settings, and questions about unknown features and given stores leave the current store alone. -/
theorem lifecycle {w₀ : World κ} (hv : Valid w₀) (hr : Run call w₀ events w) :
    Lives call w₀ w := by
  obtain ⟨hvw, hstores⟩ := hr.stores hv
  refine ⟨fun access ha => ?_, fun between w' hrun hno access ha => ?_, fun name store ha =>
    ⟨featureState_aside call hvw ha, enabled_aside call hvw ha⟩⟩
  · obtain ⟨s, w₁, ho, hon, hstays⟩ := access_spec hvw ha
    refine ⟨s, w₁, ⟨ho.run, ho.current, hon⟩, fun between w' hrun hno next hnext => ?_⟩
    -- the store is current after the call, so it still is when the next call comes
    have hcurrent := hrun.kept hstays.valid (hstays.current.trans ho.current) hno
    have hv' := (hrun.stores hstays.valid).1
    obtain ⟨t, w₂, ho', hon', -⟩ := access_spec hv' hnext
    have hsame := ho'.run
    rw [current_of_some hcurrent] at hsame
    cases hsame
    exact ⟨ho'.run, hcurrent, hon'⟩
  · have hreset := reset_later hvw
    have hnone := hrun.none hreset.valid rfl hno
    obtain ⟨hv', hstores'⟩ := hrun.stores hreset.valid
    obtain ⟨s, w₁, ho, hon, -⟩ := access_spec hv' ha
    refine ⟨s, w₁, ⟨ho.run, ho.current, hon⟩, fun r hr heq => ?_, toDict_of_new hv' hnone ho.run⟩
    have hthere : IsStore w'.heap r := by
      rcases hr with hr | hr | hr
      · exact hstores' r (hreset.stores r (hstores r hr))
      · exact hstores' r (hreset.stores r hr)
      · exact hr
    have hlt := hthere.lt_size
    have hge := ho.new hnone
    rw [heq] at hlt
    omega

/-- A mutator that fails. -/
def fails : Caller Unit := fun _ _ => throw .classImmutable

theorem lifecycle_fails : ∃ w, Run fails (Settings.newWorld .empty) [.access, .reset] w ∧
    Lives fails (Settings.newWorld .empty) w := by
  have hallowed : (Access.configure (.routine 0)).Allowed fails (Settings.newWorld .empty) :=
    fun _ _ _ _ => .done _
  have hrun := Run.cons (.access _ hallowed) (.cons .reset (.nil _))
  exact ⟨_, hrun, lifecycle valid_newWorld hrun⟩

end Registry

end PageMeta
