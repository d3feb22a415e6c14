import PageMeta.Proofs.Registry.Session
import PageMeta.Proofs.Settings.RoundTrip

/-!
# Configuring by client code

The mutator that configures the current store is client code, which may reset and configure again
while it runs.  If configuring succeeds, the store that it gives is in order, whatever the mutator
did; and it still is the current one unless there was a reset in between.

## Key results

- `exists_of_configure_ok`: what configuring by a mutator that can be called has done
- `configure_current`: when the store that was configured is the current one
- `configure_inOrder`: what is guaranteed of the store that was configured
-/

namespace PageMeta

namespace Registry

open Heap
open Settings (IsStore Cells Layout faults setting settingAt)

variable {κ : Type} {w w' w₁ w₂ w₃ : World κ} {call : Caller κ} {mutator s v : Value} {e : Error}

/-! ### How configuring ends -/

/-- A mutator that fails ends it. -/
theorem configure_of_mutator_error (hs : current w = .ok s w₁) (hm : mutator ≠ .none)
    (hcallable : Object.isCallable w₁.heap mutator = true)
    (hcall : call mutator (.of [s]) w₁ = .error e w₂) :
    configure call mutator w = .error e w₂ := by
  rw [configure_of_current hs hm, if_pos hcallable]
  exact run_bind_error (run_discard_error hcall)

/-- A store that does not pass ends it. -/
theorem configure_of_check_error (hs : current w = .ok s w₁) (hm : mutator ≠ .none)
    (hcallable : Object.isCallable w₁.heap mutator = true)
    (hcall : call mutator (.of [s]) w₁ = .ok v w₂) (hcheck : check call s w₂ = .error e w₃) :
    configure call mutator w = .error e w₃ := by
  rw [configure_of_current hs hm, if_pos hcallable]
  exact (run_bind_ok (run_discard_ok hcall)).trans (run_bind_error hcheck)

/-- If it succeeds, the mutator did and the store passed. -/
theorem exists_of_configure_ok (hs : current w = .ok s w₁) (hm : mutator ≠ .none)
    (hrun : configure call mutator w = .ok v w') :
    v = s ∧ ∃ a w₂ w₃ message, call mutator (.of [s]) w₁ = .ok a w₂ ∧
      Object.isCallable w₁.heap mutator = true ∧ check call s w₂ = .ok () w₃ ∧
      w' = { w₃ with log := w₃.log ++
        [⟨.debug, logger, "configuration updated: " ++ message⟩] } := by
  cases hcallable : Object.isCallable w₁.heap mutator with
  | false =>
    rw [configure_of_current hs hm, if_neg (Bool.not_eq_true _ ▸ hcallable)] at hrun
    cases hrun
  | true =>
    rw [configure_of_current hs hm, if_pos hcallable] at hrun
    obtain ⟨_, w₂, hcall, hrun⟩ := exists_of_bind_ok hrun
    obtain ⟨_, w₃, hcheck, hrun⟩ := exists_of_bind_ok hrun
    cases hrun
    cases hmutator : call mutator (.of [s]) w₁ with
    | error e w₂' => rw [run_discard_error hmutator] at hcall; cases hcall
    | ok a w₂' =>
      rw [run_discard_ok hmutator] at hcall
      cases hcall
      exact ⟨rfl, a, w₂, w₃, _, rfl, rfl, hcheck, rfl⟩

/-! ### Updates that are not lost -/

/-- In a later world the current store is the same exactly if there was no reset. -/
theorem Later.current_iff {s : Ref} (hl : Later w w') (hv : Valid w) (hs : w.current = some s) :
    ∃ written t w'', w'.log = w.log ++ written ∧ current w' = .ok (.ref t) w'' ∧
      (t = s ↔ resetRecord ∉ written) ∧ (t = s → w'' = w') := by
  obtain ⟨written, hlog, hreset, hsame⟩ := hl.log
  obtain ⟨t, w'', ho⟩ := exists_obtains hl.valid
  have hlt : s.index < w.heap.size := (hv.current s hs).lt_size
  by_cases hin : resetRecord ∈ written
  · have hne : t ≠ s := fun heq => by
      -- the store that is current now was made since, or is made now
      have hge : w.heap.size ≤ t.index := by
        cases hcur : w'.current with
        | none => exact Nat.le_trans hl.size_le (ho.new hcur)
        | some u =>
          have hrun := ho.run
          rw [current_of_some hcur] at hrun
          cases hrun
          exact hreset hin t hcur
      rw [heq] at hge
      exact absurd hlt (Nat.not_lt.mpr hge)
    exact ⟨written, t, w'', hlog, ho.run, ⟨fun heq => absurd heq hne, fun hno => absurd hin hno⟩,
      fun heq => absurd heq hne⟩
  · have hcur : w'.current = some s := by
      rcases hsame hin with heq | ⟨hnone, -⟩
      · rw [heq, hs]
      · rw [hs] at hnone; cases hnone
    exact ⟨written, s, w', hlog, current_of_some hcur, ⟨fun _ => hin, fun _ => rfl⟩, fun _ => rfl⟩

/-- Configuring by client code starts from the current store, and ends later. -/
theorem exists_of_configure (hv : Valid w) (hm : Mutates call mutator w)
    (hrun : configure call mutator w = .ok v w') :
    ∃ s w₁, v = .ref s ∧ Obtains s w w₁ ∧ Later w₁ w' ∧ (mutator = .none ∨
      ∃ (c : Cells) (scalar : String → Value), c.store = s ∧ Layout w'.heap c scalar ∧
        faults w'.heap c scalar = .ok []) := by
  obtain ⟨s, w₁, ho⟩ := exists_obtains hv
  by_cases hnone : mutator = .none
  · subst hnone
    rw [configure_none ho.run] at hrun
    cases hrun
    exact ⟨s, _, rfl, ho, .refl ho.later.valid, .inl rfl⟩
  · obtain ⟨rfl, a, w₂, w₃, message, hcall, hcallable, hcheck, rfl⟩ :=
      exists_of_configure_ok ho.run hnone hrun
    -- the mutator leaves a valid world in which the store still stands, so the check reads it
    have hsession := hm _ w₁ ho.run hcallable
    rw [hcall] at hsession
    have hl : Later w₁ w₂ := hsession.later ho.later.valid
    obtain ⟨c, scalar, rfl, hc⟩ := hl.valid.layout (hl.stores s ho.isStore)
    obtain ⟨rfl, hfaults⟩ := (check_outcome call hl.valid hc).result hcheck
    refine ⟨c.store, w₁, rfl, ho, hl.trans (.of_log hl.valid [_] (fun hin => ?_) rfl rfl
      rfl), .inr ⟨c, scalar, rfl, hc, hfaults⟩⟩
    exact resetRecord_ne_updated _ (List.mem_singleton.mp hin)

/-- If configuring by client code succeeds, the store that it gives is the one that is current next
exactly if nothing was reset in between; and then asking for it changes nothing. -/
theorem configure_current (hv : Valid w) (hm : Mutates call mutator w)
    (hrun : configure call mutator w = .ok s w') :
    ∃ written t w'', w'.log = w.log ++ written ∧ current w' = .ok t w'' ∧
      (t = s ↔ resetRecord ∉ written) ∧ (t = s → w'' = w') := by
  obtain ⟨s, w₁, rfl, ho, hl, -⟩ := exists_of_configure hv hm hrun
  obtain ⟨first, hlog₁, hno⟩ := ho.log
  obtain ⟨second, t, w'', hlog₂, ht, hiff, hsame⟩ := hl.current_iff ho.later.valid ho.current
  refine ⟨first ++ second, .ref t, w'', by rw [hlog₂, hlog₁, List.append_assoc], ht, ?_, fun heq =>
    hsame (by cases heq; rfl)⟩
  -- asking for the store at the start is no reset, so all resets came after
  rw [Value.ref.injEq, hiff, List.mem_append, not_or]
  exact ⟨fun hsecond => ⟨hno, hsecond⟩, fun hboth => hboth.2⟩

/-- A mutator that names the site, then asks for the current store. -/
def namesSite : Caller Unit := fun _ args => do
  match args.positional with
  | [s] => do
    Action.onHeap (Object.setAttribute s "site_name" (.ofText "Shop"))
    current
  | _ => return .none

/-- A mutator that resets. -/
def resets : Caller Unit := fun _ _ => do
  reset
  return .none

theorem valid_newWorld : Valid (Settings.newWorld .empty) where
  stores := ⟨AttributeMap.sound_empty, fun r hr => absurd hr.lt_size (Nat.not_lt_zero _),
    fun r r' _ hr => absurd (IsStore.lt_size ⟨_, hr⟩) (Nat.not_lt_zero _)⟩
  current s hs := by cases hs

theorem mutates_namesSite {w : World Unit} (hv : Valid w) (m : Value) : Mutates namesSite m w := by
  intro s w₁ hs _
  obtain ⟨r, rfl, ho⟩ := obtains_of_current hv hs
  obtain ⟨c, scalar, rfl, hc⟩ := ho.later.valid.layout ho.isStore
  have hname : "site_name" ∈ Settings.scalarNames := by decide
  obtain ⟨w₂, hrun, hcur⟩ : ∃ w₂ : World Unit, Action.onHeap
      (Object.setAttribute (.ref c.store) "site_name" (.ofText "Shop")) w₁ = .ok () w₂ ∧
        w₂.current = some c.store :=
    ⟨{ w₁ with heap := w₁.heap.write c.attributes (.dict (Settings.attributeEntries
        (Function.update scalar "site_name" (.ofText "Shop")) c.sections)) },
      by simp only [Action.onHeap, Settings.setAttribute_scalar hc hname], ho.current⟩
  have hend : namesSite m (.of [.ref c.store]) w₁ = .ok (.ref c.store) w₂ :=
    (run_bind_ok hrun).trans (current_of_some hcur)
  rw [hend]
  -- the run is two calls of a client: one assignment, then asking for the current store
  refine .call (.onStore c.store (.assign "site_name" (.ofText "Shop")))
    ⟨hc.isStore, hname, rfl, fun r heq => by cases heq⟩ ?_
  have hassigned : stateAfter (ClientCall.run namesSite
      (.onStore c.store (.assign "site_name" (.ofText "Shop")))) w₁ = w₂ := stateAfter_eq hrun
  have hasked : stateAfter (ClientCall.run namesSite .current) w₂ = w₂ :=
    stateAfter_eq (run_discard_ok (current_of_some hcur))
  rw [hassigned]
  refine .call .current trivial ?_
  rw [hasked]
  exact .finish _ _

theorem mutates_resets (w : World Unit) (m : Value) : Mutates resets m w :=
  fun _ _ _ _ => .call .reset trivial (.finish _ _)

theorem configure_current_namesSite : ∃ s w',
    configure namesSite (.routine 0) (Settings.newWorld .empty) = .ok s w' ∧
    ∃ written t w'', w'.log = (Settings.newWorld .empty).log ++ written ∧
      current w' = .ok t w'' ∧ (t = s ↔ resetRecord ∉ written) ∧ (t = s → w'' = w') := by
  have hruns : succeeded (configure namesSite (.routine 0) (Settings.newWorld .empty)) = true := by
    decide +kernel
  obtain ⟨s, w', hrun⟩ := exists_of_succeeded hruns
  exact ⟨s, w', hrun, configure_current valid_newWorld (mutates_namesSite valid_newWorld _) hrun⟩

/-- If the mutator resets, the store that is given is not the current one any more. -/
theorem configure_current_resets : ∃ s w' t w'', Valid (Settings.newWorld .empty) ∧
    Mutates resets (.routine 0) (Settings.newWorld .empty) ∧
    configure resets (.routine 0) (Settings.newWorld .empty) = .ok s w' ∧
    current w' = .ok t w'' ∧ t ≠ s := by
  have hmutates := mutates_resets (Settings.newWorld .empty) (.routine 0)
  have hruns : succeeded (configure resets (.routine 0) (Settings.newWorld .empty)) = true := by
    decide +kernel
  have hnone : (endState (configure resets (.routine 0) (Settings.newWorld .empty))).current =
      none := by decide +kernel
  obtain ⟨s, w', hrun⟩ := exists_of_succeeded hruns
  rw [hrun] at hnone
  obtain ⟨r, w₁, rfl, ho, hl, -⟩ := exists_of_configure valid_newWorld hmutates hrun
  obtain ⟨t, w'', ht⟩ := exists_obtains hl.valid
  refine ⟨_, w', _, w'', valid_newWorld, hmutates, hrun, ht.run, fun heq => ?_⟩
  -- a store is made only now, so it is not one that was there
  have hnew := ht.new hnone
  have hold := (hl.stores r ho.isStore).lt_size
  cases heq
  exact absurd hold (Nat.not_lt.mpr hnew)

/-! ### Stores in order -/

/-- Whether a value counts as false, or has a length that is within a limit. -/
def Short (h : Heap) (v : Value) (limit : Nat) : Prop :=
  h.truth v = false ∨ ∃ n, h.length v = .ok n ∧ n ≤ limit

/-- Whether what a store answers is as the rules demand. -/
structure InOrder (call : Caller κ) (s : Value) (w : World κ) : Prop where
  /-- The locales are a list that is not empty, and the default locale is one of its items. -/
  locales : ∃ r items locale,
    Action.onHeap (Object.getAttribute s "available_locales") w = .ok (.ref r) w ∧
    w.heap.read r = some (.list items) ∧ items ≠ [] ∧
    Action.onHeap (Object.getAttribute s "default_locale") w = .ok locale w ∧
    ∃ item ∈ items, w.heap.sameItem item locale = true
  /-- There is a host if the site map counts as enabled, and if it is. -/
  host : ∃ on host, setting call s .sitemap "enabled" w = .ok on w ∧
    setting call s .sitemap "host" w = .ok host w ∧ (w.heap.truth on = true → host ≠ .none) ∧
    ∀ name w', name.text? = some SectionName.sitemap.name →
      featureState call name s w = .ok .enabled w' → host ≠ .none
  title : ∃ v, setting call s .metaTags "default_title" w = .ok v w ∧ Short w.heap v 60
  description : ∃ v, setting call s .metaTags "default_description" w = .ok v w ∧
    Short w.heap v 160

variable {h : Heap} {c : Cells} {scalar : String → Value}

/-- Nothing is wrong with a store exactly if every rule is kept. -/
theorem faults_eq_nil (hf : faults h c scalar = .ok []) :
    Settings.localeFaults h scalar = [] ∧ Settings.hostFaults h c = [] ∧
      Settings.lengthFaults h c "default_title" Settings.maxTitle = .ok [] ∧
      Settings.lengthFaults h c "default_description" Settings.maxDescription = .ok [] := by
  unfold faults at hf
  cases htitle : Settings.lengthFaults h c "default_title" Settings.maxTitle with
  | error e => rw [htitle] at hf; cases hf
  | ok title =>
    cases hdescription :
        Settings.lengthFaults h c "default_description" Settings.maxDescription with
    | error e => rw [htitle, hdescription] at hf; cases hf
    | ok description =>
      rw [htitle, hdescription] at hf
      have hnil := Except.ok.inj hf
      simp only [List.append_eq_nil_iff] at hnil
      obtain ⟨⟨⟨hlocale, hhost⟩, rfl⟩, rfl⟩ := hnil
      exact ⟨hlocale, hhost, rfl, rfl⟩

theorem locales_of_faults (hf : Settings.localeFaults h scalar = []) :
    ∃ r items, scalar "available_locales" = .ref r ∧ h.read r = some (.list items) ∧ items ≠ [] ∧
      ∃ item ∈ items, h.sameItem item (scalar "default_locale") = true := by
  unfold Settings.localeFaults at hf
  split at hf
  · rename_i items hcell
    obtain ⟨hempty, hknown⟩ := List.append_eq_nil_iff.mp hf
    obtain ⟨r, hr⟩ : ∃ r, scalar "available_locales" = .ref r := by
      cases hv : scalar "available_locales" with
      | ref r => exact ⟨r, rfl⟩
      | _ => rw [hv] at hcell; cases hcell
    rw [hr] at hcell
    refine ⟨r, items, hr, hcell, fun hnil => ?_, ?_⟩
    · rw [hnil] at hempty
      cases hempty
    · have hany := Settings.when_eq_nil.mp hknown
      rwa [Bool.not_eq_false', List.any_eq_true] at hany
  · cases hf

theorem host_of_faults (hf : Settings.hostFaults h c = []) :
    h.truth (settingAt h c .sitemap "enabled") = true → settingAt h c .sitemap "host" ≠ .none := by
  intro hon hnone
  have hcondition := Settings.when_eq_nil.mp hf
  rw [hon, hnone] at hcondition
  cases hcondition

theorem short_of_faults {key : String} {limit : Nat}
    (hf : Settings.lengthFaults h c key limit = .ok []) :
    Short h (settingAt h c .metaTags key) limit := by
  unfold Settings.lengthFaults Settings.exceeds at hf
  cases htruth : h.truth (settingAt h c .metaTags key) with
  | false => exact .inl htruth
  | true =>
    rw [if_pos htruth] at hf
    cases hlength : h.length (settingAt h c .metaTags key) with
    | error e => rw [hlength] at hf; cases hf
    | ok n =>
      rw [hlength] at hf
      have hlong := Settings.when_eq_nil.mp (Except.ok.inj hf)
      exact .inr ⟨n, hlength, Nat.not_lt.mp (of_decide_eq_false hlong)⟩

/-- A site map that is enabled counts as enabled. -/
theorem truth_of_sitemap_enabled {name : Value} (hc : Layout w.heap c scalar)
    (hname : name.text? = some SectionName.sitemap.name)
    (hstate : featureState call name (.ref c.store) w = .ok .enabled w') :
    w.heap.truth (settingAt w.heap c .sitemap "enabled") = true := by
  have hfeature : namedFeature? name = some .sitemap := by
    rw [namedFeature?, hname]
    rfl
  have hsitemap : SectionName.sitemap ∈ SectionName.features := by decide
  have hquery := Settings.queryFeature_ok call hc hsitemap
  simp only [featureState, hfeature, bind, EStateM.bind, pure, EStateM.pure, hquery] at hstate
  split at hstate
  · rename_i hon
    rw [eq_of_beq hon]
    rfl
  · cases hstate

/-- A store with which nothing is wrong answers as the rules demand. -/
theorem inOrder_of_faults (hv : Valid w) (hc : Layout w.heap c scalar)
    (hf : faults w.heap c scalar = .ok []) : InOrder call (.ref c.store) w := by
  have hattr : ∀ name ∈ Settings.scalarNames,
      Action.onHeap (Object.getAttribute (.ref c.store) name) w = .ok (scalar name) w :=
    fun name hn => by
      simp only [Action.onHeap, Settings.getAttribute_scalar hc hn
        (Settings.fine_scalar hv.stores.sound hc hn).1]
  obtain ⟨hlocale, hhost, htitle, hdescription⟩ := faults_eq_nil hf
  obtain ⟨r, items, hr, hread, hne, hknown⟩ := locales_of_faults hlocale
  have hon := host_of_faults hhost
  refine ⟨⟨r, items, _, hr ▸ hattr "available_locales" (by decide), hread, hne,
    hattr "default_locale" (by decide), hknown⟩, ⟨_, _, Settings.setting_ok call hc.equipped _ _,
    Settings.setting_ok call hc.equipped _ _, hon, fun name w' hname hstate =>
      hon (truth_of_sitemap_enabled hc hname hstate)⟩,
    ⟨_, Settings.setting_ok call hc.equipped _ _, short_of_faults htitle⟩,
    ⟨_, Settings.setting_ok call hc.equipped _ _, short_of_faults hdescription⟩⟩

/-- If configuring by client code succeeds, the store that it gives is in order.  What the mutator or
the check raises is raised, and what is current is what the mutator left. -/
theorem configure_inOrder (hv : Valid w) (hne : mutator ≠ .none) (hm : Mutates call mutator w) :
    (∀ s w', configure call mutator w = .ok s w' → InOrder call s w') ∧
    ∃ s w₁, current w = .ok s w₁ ∧ (Object.isCallable w₁.heap mutator = true →
      (∀ e w₂, call mutator (.of [s]) w₁ = .error e w₂ →
        configure call mutator w = .error e w₂) ∧
      ∀ v w₂ e w₃, call mutator (.of [s]) w₁ = .ok v w₂ →
        Settings.validate call s w₂ = .error e w₃ →
        configure call mutator w = .error e w₃ ∧ w₃.current = w₂.current) := by
  refine ⟨fun s w' hrun => ?_, ?_⟩
  · obtain ⟨s, w₁, rfl, -, hl, hnone | ⟨c, scalar, rfl, hc, hf⟩⟩ := exists_of_configure hv hm hrun
    · exact absurd hnone hne
    · exact inOrder_of_faults hl.valid hc hf
  · obtain ⟨s, w₁, ho⟩ := exists_obtains hv
    refine ⟨.ref s, w₁, ho.run, fun hcallable => ⟨fun e w₂ hcall =>
      configure_of_mutator_error ho.run hne hcallable hcall, fun v w₂ e w₃ hcall hvalidate => ?_⟩⟩
    have hsession := hm _ w₁ ho.run hcallable
    rw [hcall] at hsession
    have hl : Later w₁ w₂ := hsession.later ho.later.valid
    obtain ⟨c, scalar, rfl, hc⟩ := hl.valid.layout (hl.stores s ho.isStore)
    have hcheck : check call (.ref c.store) w₂ = .error e w₃ := by
      rw [Settings.check_eq call hc]
      exact run_discard_error hvalidate
    refine ⟨configure_of_check_error ho.run hne hcallable hcall hcheck, ?_⟩
    have hleft := check_outcome call hl.valid hc
    rw [Outcome, hcheck] at hleft
    exact hleft.2

theorem configure_inOrder_namesSite : ∃ s w',
    configure namesSite (.routine 0) (Settings.newWorld .empty) = .ok s w' ∧
      InOrder namesSite s w' := by
  have hruns : succeeded (configure namesSite (.routine 0) (Settings.newWorld .empty)) = true := by
    decide +kernel
  obtain ⟨s, w', hrun⟩ := exists_of_succeeded hruns
  have hroutine : Value.routine 0 ≠ .none := fun heq => by cases heq
  have hguarantee := configure_inOrder valid_newWorld hroutine (mutates_namesSite valid_newWorld _)
  exact ⟨s, w', hrun, hguarantee.1 s w' hrun⟩

end Registry

end PageMeta
