import PageMeta.World

/-!
# Outcomes of actions

What holds of the result and the state after an action that succeeds, and of the state after one
that fails: a failure keeps the state it left behind, so that there is something to say about it as
well.  The state is a heap, or a world with a heap in it.

## Key results

- `Outcome.bind`: the outcome of one action after another
- `Outcome.mono`: an outcome that says less
- `Outcome.onHeap`: the outcome of an action on the heap of a world
-/

namespace PageMeta

variable {σ α β : Type} {s : σ} {x : EStateM Error σ α} {ok ok' : α → σ → Prop}
  {failed failed' : σ → Prop}

theorem run_get : (get : EStateM Error σ σ) s = .ok s s := rfl

theorem run_bind_ok {f : α → EStateM Error σ β} {a : α} {s' : σ} (hx : x s = .ok a s') :
    (x >>= f) s = f a s' := by
  simp only [bind, EStateM.bind, hx]

theorem run_bind_error {f : α → EStateM Error σ β} {e : Error} {s' : σ} (hx : x s = .error e s') :
    (x >>= f) s = .error e s' := by
  simp only [bind, EStateM.bind, hx]

theorem run_discard_ok {a : α} {s' : σ} (hx : x s = .ok a s') : (discard x) s = .ok () s' := by
  simp only [Functor.discard, Functor.mapConst, EStateM.map, Function.comp_apply, hx]

theorem run_discard_error {e : Error} {s' : σ} (hx : x s = .error e s') :
    (discard x) s = .error e s' := by
  simp only [Functor.discard, Functor.mapConst, EStateM.map, Function.comp_apply, hx]

/-- If one action after another succeeds, so did the first. -/
theorem exists_of_bind_ok {f : α → EStateM Error σ β} {b : β} {s'' : σ}
    (hrun : (x >>= f) s = .ok b s'') : ∃ a s', x s = .ok a s' ∧ f a s' = .ok b s'' := by
  cases hx : x s with
  | ok a s' => exact ⟨a, s', rfl, by rwa [run_bind_ok hx] at hrun⟩
  | error e s' => rw [run_bind_error hx] at hrun; cases hrun

/-- What holds after an action, whether it succeeds or fails. -/
def Outcome (x : EStateM Error σ α) (s : σ) (ok : α → σ → Prop) (failed : σ → Prop) : Prop :=
  match x s with
  | .ok a s' => ok a s'
  | .error _ s' => failed s'

/-- The state that an action leaves behind, whether it succeeds or fails. -/
def stateAfter (x : EStateM Error σ α) (s : σ) : σ :=
  match x s with
  | .ok _ s' | .error _ s' => s'

/-- The state in which something ended. -/
def endState : EStateM.Result Error σ α → σ
  | .ok _ s | .error _ s => s

theorem stateAfter_eq {r : EStateM.Result Error σ α} (hx : x s = r) :
    stateAfter x s = endState r := by
  subst hx
  unfold stateAfter endState
  cases x s <;> rfl

/-- What something that succeeded gave. -/
def given? : EStateM.Result Error σ α → Option α
  | .ok a _ => some a
  | .error _ _ => none

theorem exists_of_given? {r : EStateM.Result Error σ α} {a : α} (hr : given? r = some a) :
    ∃ s, r = .ok a s := by
  cases r with
  | ok b s => cases hr; exact ⟨s, rfl⟩
  | error e s => cases hr

/-- Whether something succeeded. -/
def succeeded : EStateM.Result Error σ α → Bool
  | .ok _ _ => true
  | .error _ _ => false

theorem exists_of_succeeded {r : EStateM.Result Error σ α} (hr : succeeded r = true) :
    ∃ a s, r = .ok a s := by
  cases r with
  | ok a s => exact ⟨a, s, rfl⟩
  | error e s => cases hr

/-- An action on the heap of a world that succeeds. -/
theorem run_onHeap_ok {κ : Type} {w : World κ} {act : Heap.Action α} {a : α} {h : Heap}
    (hx : act w.heap = .ok a h) : Action.onHeap act w = .ok a { w with heap := h } := by
  simp only [Action.onHeap, hx]

/-- An action on the heap of a world that fails. -/
theorem run_onHeap_error {κ : Type} {w : World κ} {act : Heap.Action α} {e : Error} {h : Heap}
    (hx : act w.heap = .error e h) : Action.onHeap act w = .error e { w with heap := h } := by
  simp only [Action.onHeap, hx]

/-- What is known of the heap that an action leaves behind holds of the world that it ends in. -/
theorem heap_of_run {κ : Type} {w w₁ w' : World κ} {x : Action κ α} {a : α} {P : Heap → Prop}
    (hx : ∃ u h, x w = .ok u { w₁ with heap := h } ∧ P h) (hrun : x w = .ok a w') : P w'.heap := by
  obtain ⟨u, h, hx, hP⟩ := hx
  rw [hx] at hrun
  cases hrun
  exact hP

namespace Outcome

theorem of_ok {a : α} {s' : σ} (hx : x s = .ok a s') (ha : ok a s') : Outcome x s ok failed := by
  rw [Outcome, hx]
  exact ha

theorem of_error {e : Error} {s' : σ} (hx : x s = .error e s') (hf : failed s') :
    Outcome x s ok failed := by
  rw [Outcome, hx]
  exact hf

/-- What is known of an action that succeeds holds of its result. -/
theorem result {a : α} {s' : σ} (ho : Outcome x s ok failed) (hx : x s = .ok a s') : ok a s' := by
  rw [Outcome, hx] at ho
  exact ho

/-- An action that has no way to fail succeeds. -/
theorem exists_ok (hx : Outcome x s ok fun _ => False) : ∃ a s', x s = .ok a s' ∧ ok a s' := by
  unfold Outcome at hx
  split at hx
  · exact ⟨_, _, ‹_›, hx⟩
  · exact hx.elim

theorem pure {a : α} (ha : ok a s) : Outcome (Pure.pure a) s ok failed := ha

theorem bind {f : α → EStateM Error σ β} {ok : β → σ → Prop}
    (hx : Outcome x s (fun a s' => Outcome (f a) s' ok failed) failed) :
    Outcome (x >>= f) s ok failed := by
  unfold Outcome at hx ⊢
  simp only [Bind.bind, EStateM.bind]
  cases hc : x s with
  | ok a s' => rw [hc] at hx; exact hx
  | error e s' => rw [hc] at hx; exact hx

theorem discard {ok : Unit → σ → Prop} (hx : Outcome x s (fun _ s' => ok () s') failed) :
    Outcome (discard x) s ok failed := by
  unfold Outcome at hx ⊢
  simp only [Functor.discard, Functor.mapConst, EStateM.map, Function.comp_apply]
  cases hc : x s with
  | ok a s' => rw [hc] at hx; exact hx
  | error e s' => rw [hc] at hx; exact hx

/-- What holds whether an action succeeds or fails holds of the state that it leaves behind. -/
theorem stateAfter {left : σ → Prop} (hx : Outcome x s (fun _ => left) left) :
    left (stateAfter x s) := by
  unfold Outcome at hx
  unfold PageMeta.stateAfter
  cases hc : x s with
  | ok a s' => rw [hc] at hx; exact hx
  | error e s' => rw [hc] at hx; exact hx

theorem of_endState {left : σ → Prop} (hx : left (endState (x s))) :
    Outcome x s (fun _ => left) left := by
  unfold Outcome
  cases hc : x s with
  | ok a s' => rw [hc] at hx; exact hx
  | error e s' => rw [hc] at hx; exact hx

/-- Reading the state leaves it as it is. -/
theorem get_bind {f : σ → EStateM Error σ β} {ok : β → σ → Prop} (hf : Outcome (f s) s ok failed) :
    Outcome (get >>= f) s ok failed := hf

theorem mono (hx : Outcome x s ok failed) (hok : ∀ a s', ok a s' → ok' a s')
    (hf : ∀ s', failed s' → failed' s') : Outcome x s ok' failed' := by
  unfold Outcome at hx ⊢
  cases hc : x s with
  | ok a s' => rw [hc] at hx; exact hok a s' hx
  | error e s' => rw [hc] at hx; exact hf s' hx

/-- What holds after an action in two respects. -/
theorem and (h₁ : Outcome x s ok failed) (h₂ : Outcome x s ok' failed') :
    Outcome x s (fun a s' => ok a s' ∧ ok' a s') fun s' => failed s' ∧ failed' s' := by
  unfold Outcome at h₁ h₂ ⊢
  cases hc : x s with
  | ok a s' => rw [hc] at h₁ h₂; exact ⟨h₁, h₂⟩
  | error e s' => rw [hc] at h₁ h₂; exact ⟨h₁, h₂⟩

/-- An action with a way out of its failures. -/
theorem tryCatch {handle : Error → EStateM Error σ α} (hx : Outcome x s ok failed')
    (hh : ∀ e s', failed' s' → Outcome (handle e) s' ok failed) :
    Outcome (tryCatch x handle) s ok failed := by
  unfold Outcome at hx
  cases hc : x s with
  | ok a s' =>
    have hrun : (MonadExcept.tryCatch x handle) s = .ok a s' := by
      show EStateM.tryCatch x handle s = _
      unfold EStateM.tryCatch
      rw [hc]
    rw [hc] at hx
    exact of_ok hrun hx
  | error e s' =>
    have hrun : (MonadExcept.tryCatch x handle) s = handle e s' := by
      show EStateM.tryCatch x handle s = _
      unfold EStateM.tryCatch
      rw [hc]
      rfl
    rw [hc] at hx
    rw [Outcome, hrun]
    exact hh e s' hx

theorem ask {h : Heap} {question : Heap → Except Error α} {ok : α → Heap → Prop}
    {failed : Heap → Prop} (hok : ∀ a, question h = .ok a → ok a h) (hf : failed h) :
    Outcome (Heap.ask question) h ok failed := by
  unfold Outcome Heap.ask
  cases hq : question h with
  | ok a => exact hok a hq
  | error e => exact hf

variable {κ : Type} {w : World κ}

/-- An action on the heap leaves the rest of the world alone. -/
theorem onHeap {act : Heap.Action α} {ok : α → World κ → Prop} {failed : World κ → Prop}
    (ha : Outcome act w.heap (fun a h => ok a { w with heap := h })
      (fun h => failed { w with heap := h })) : Outcome (Action.onHeap act) w ok failed := by
  unfold Outcome at ha ⊢
  unfold Action.onHeap
  cases hc : act w.heap with
  | ok a h => rw [hc] at ha; exact ha
  | error e h => rw [hc] at ha; exact ha

end Outcome

end PageMeta
