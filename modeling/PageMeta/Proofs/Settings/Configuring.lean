import PageMeta.CommandLine.Check
import PageMeta.Proofs.Settings.ExactLoading
import PageMeta.Proofs.Settings.Rules

/-!
# How configuring ends

Configuring a new store with plain data ends in one of four ways: the data are unfit for a section, or
a length is asked for in vain, or rules are broken, or the store is configured.  Which of them it is can
be told from the data, and no warning is logged on any way.

## Key results

- `loaded_loaded`: loading what was loaded gives the same contents
- `load_data`: what a new store holds after plain data were loaded
- `configure_unfit`: data that are unfit cannot be merged
- `configure_fit`: with others the store is checked, and what comes of it depends on what it holds
-/

namespace PageMeta.Settings

open Heap

variable {h h' h₀ : Heap} {c : Cells} {scalar : String → Value} {x : Contents} {t : Tree String}
  {v y : Value} {data : Ref} {ts : Entries String (Tree String)} {κ : Type} {call : Caller κ}
  {w w' w'' : World κ}

/-! ### Contents after loading -/

/-- The contents after plain data are loaded. -/
def Contents.loaded (x : Contents) (ts : Entries String (Tree String)) : Contents where
  scalar := (x.withScalars ts scalarNames).scalar
  part name :=
    if (offer ts name).isMap then (x.part name).deepMerge (offer ts name) else x.part name

/-- Whether plain data have nothing for a section but maps. -/
def Fit (ts : Entries String (Tree String)) : Prop :=
  ∀ name, (offer ts name).isAbsent = true ∨ (offer ts name).isMap = true

theorem Contents.offer_entries (x : Contents) (name : SectionName) :
    offer x.entries name = x.part name := by rw [offer, x.get?_part name, Option.getD_some]

/-- Sections stay maps, and have all that was merged into them. -/
theorem part_loaded {name : SectionName} (hmap : (x.part name).isMap = true)
    (hx : (x.part name).Distinct) (hts : (Tree.map ts).Distinct) :
    ((x.loaded ts).part name).isMap = true ∧
      (x.part name).deepMerge ((x.loaded ts).part name) = (x.loaded ts).part name := by
  simp only [Contents.loaded]
  split
  · rename_i hoffer
    refine ⟨?_, Tree.deepMerge_deepMerge hx (distinct_offer hts name)⟩
    rw [Tree.isMap_deepMerge, hoffer]
  · exact ⟨hmap, Tree.deepMerge_self hx⟩

/-- What a store holds after plain data were loaded into it are plain data that leave another such
store with the same, down to the order of their keys. -/
theorem loaded_loaded (hmaps : ∀ name, (x.part name).isMap = true)
    (hx : ∀ name, (x.part name).Distinct) (hts : (Tree.map ts).Distinct) :
    x.loaded (x.loaded ts).entries = x.loaded ts := by
  have hscalar : (x.loaded (x.loaded ts).entries).scalar = (x.loaded ts).scalar := by
    funext name
    by_cases hn : name ∈ scalarNames
    · have hget := (x.loaded ts).get?_scalar hn
      simp only [Contents.loaded, Contents.withScalars, if_pos hn] at hget ⊢
      rw [hget, Option.getD_some]
    · simp only [Contents.loaded, Contents.withScalars, if_neg hn]
  have hpart : (x.loaded (x.loaded ts).entries).part = (x.loaded ts).part := by
    funext name
    obtain ⟨hmap, hmerge⟩ := part_loaded (hmaps name) (hx name) hts
    simp only [Contents.loaded, Contents.offer_entries] at hmap hmerge ⊢
    rw [if_pos hmap, hmerge]
  cases hy : x.loaded (x.loaded ts).entries
  cases hz : x.loaded ts
  rw [hy, hz] at hscalar hpart
  subst hscalar hpart
  rfl

/-! ### Loading plain data -/

/-- What is taken over from plain data are plain data. -/
theorem TakenOver.isData (ht : TakenOver h h' v y) (hs : h'.Sound) (hc : Confined c h h')
    (hl : Layout h c scalar) (hd : IsData h t v) : IsData h' t y := by
  have hd' := hc.isData hl hd
  unfold TakenOver at ht
  split at ht
  · rename_i items hcell
    obtain ⟨r, rfl, -, hr⟩ := ht
    obtain ⟨s, rfl, hs'⟩ : ∃ s, v = .ref s ∧ h'.read s = some (.list items) := by
      cases v with
      | ref s => exact ⟨s, rfl, hc.lists s items hcell⟩
      | _ => cases hcell
    obtain ⟨us, rfl, hus⟩ := hd'.items_of_list hs'
    have hfree : h'.Free r := hs.free_of_read hr fun _ heq => by cases heq
    refine ⟨⟨items, by simp [items?, cell?, hr], fun q hq => ?_, hus⟩, hd'.plain⟩
    simp only [own, hr, Option.bind_some, Cell.backing?, Option.toList_none,
      List.mem_singleton] at hq
    rwa [hq]
  · subst ht
    exact hd'

theorem offer_isPlain (hp : (Tree.map ts).isPlain = true) (name : SectionName) :
    (offer ts name).isPlain = true := Tree.isPlain_under hp name.name

theorem firstUnfit_eq_none {within : Ref → Prop} (hs : h.Sound)
    (hr : h.Reads .plain within (.map ts) (.ref data)) : firstUnfit h data = none ↔ Fit ts := by
  rw [firstUnfit_eq hs hr, List.find?_eq_none]
  refine forall_congr' fun name => ?_
  cases (offer ts name).isAbsent <;> simp [mem_all name]

/-- The sections after plain data are loaded. -/
def loadedParts (part : SectionName → Tree String) (ts : Entries String (Tree String))
    (name : SectionName) : Tree String :=
  if (offer ts name).isMap then (part name).deepMerge (offer ts name) else part name

/-- Whether a scalar is what plain data have for it, or the one before if they have nothing. -/
def TakenFrom (h : Heap) (given : Option (Tree String)) (old new : Value) : Prop :=
  match given with
  | some t => IsData h t new
  | none => new = old

/-- A store that loads plain data with nothing for a section but maps takes over the scalars that they
have, and merges the sections. -/
theorem Holds.load_data (call : Caller κ) {part : SectionName → Tree String}
    (hx : Holds w.heap c scalar part) (hd : IsData w.heap (.map ts) v)
    (hread : w.heap.Reads .plain (fun r => ¬ Own w.heap c r) (.map ts) v) (hfit : Fit ts) :
    ∃ h' scalar', Settings.load call (.ref c.store) v w = .ok (.ref c.store) { w with heap := h' } ∧
      Holds h' c scalar' (loadedParts part ts) ∧ Confined c w.heap h' ∧
      ∀ name ∈ scalarNames, TakenFrom h' (ts.get? name) (scalar name) (scalar' name) := by
  obtain ⟨data, es, rfl, hdata⟩ := dict_of_reads hread
  have hdistinct := hread.distinct (by decide)
  obtain ⟨h', hrun, hloaded, -⟩ := load_fit call hx hdata (offer_givenApart hread)
    ((firstUnfit_eq_none hx.sound hread).mpr hfit)
  obtain ⟨⟨scalar', hx', ht⟩, -, hconfined⟩ :=
    hloaded.of_distinct hx (distinct_offer hdistinct)
  -- what was offered as values is what the tree offers, so the sections hold what the tree says
  have hparts : mergedParts Tree.deepMerge part (offered w.heap data (offer ts))
      SectionName.all = loadedParts part ts := by
    funext name
    simp only [mergedParts, offered, if_pos (mem_all name), loadedParts,
      isMapping_of_reads hx.sound (offer_reads hread name)]
    split <;> rfl
  refine ⟨h', scalar', hrun, hparts ▸ hx', hconfined, fun name hn => ?_⟩
  rw [entriesAt_dict hdata] at ht
  have hm : Entries.Match (fun _ t v => IsData w.heap t v) ts es := by
    obtain ⟨us, heq, hm⟩ := hd.match_of_dict hdata
    cases heq
    exact hm
  -- a scalar that the dictionary lacks is the one before, and any other is a copy of what it has
  rcases hm.get? (show (Key.ofText name).text? = some name from rfl) with
    ⟨hnone, hget⟩ | ⟨u, v, hsome, hget, hdu⟩
  · rw [hnone]
    exact ht.kept name (.inr hget)
  · rw [hsome]
    exact (ht.taken name hn v hget).isData hx'.sound hconfined hx.layout hdu

/-- A new store that loads plain data with nothing for a section but maps holds what was loaded. -/
theorem load_data (call : Caller κ) (hx : Stands w.heap c x)
    (hf : Fresh h₀ w.heap SectionName.all c.map) (hl : Lasts h₀ w.heap)
    (hd : IsData h₀ (.map ts) v) (hfit : Fit ts) :
    ∃ h', load call (.ref c.store) v w = .ok (.ref c.store) { w with heap := h' } ∧
      Stands h' c (x.loaded ts) := by
  obtain ⟨scalar, hholds, hscalar⟩ := hx.holds hf
  obtain ⟨h', scalar', hrun, hx', hconfined, htaken⟩ := hholds.load_data call (hd.lasts hl)
    ((hf.reads_apart hholds.layout hl hd).mono fun _ hr => hr.2) hfit
  refine ⟨h', hrun, hx'.sound, ⟨scalar', hx'.layout, fun name hn => ?_⟩,
    fun name => ⟨hx'.reads name, ?_⟩⟩
  · -- a scalar has what was loaded, or what it had if there was nothing for it
    have hname := htaken name hn
    simp only [Contents.loaded, Contents.withScalars, if_pos hn]
    cases hget : ts.get? name with
    | none =>
      rw [hget] at hname
      rw [Option.getD_none, show scalar' name = scalar name from hname]
      exact hconfined.isData hholds.layout (hscalar name hn)
    | some t =>
      rw [hget] at hname
      exact hname
  · simp only [Contents.loaded]
    split
    · exact Tree.allLeaves_deepMerge (hx.parts name).plain (offer_isPlain hd.plain name)
    · exact (hx.parts name).plain

/-- A store does not load plain data that have something else than a map for a section. -/
theorem load_data_unfit (call : Caller κ) (hx : Stands w.heap c x)
    (hf : Fresh h₀ w.heap SectionName.all c.map) (hl : Lasts h₀ w.heap)
    (hd : IsData h₀ (.map ts) v) (hfit : ¬ Fit ts) :
    ∃ type h', load call (.ref c.store) v w = .error (.cannotMerge type) { w with heap := h' } := by
  obtain ⟨scalar, hholds, -⟩ := hx.holds hf
  have hread : w.heap.Reads .plain (fun r => ¬ Own w.heap c r) (.map ts) v :=
    (hf.reads_apart hholds.layout hl hd).mono fun _ hr => hr.2
  obtain ⟨data, es, rfl, hdata⟩ := dict_of_reads hread
  cases hbad : firstUnfit w.heap data with
  | none => exact absurd ((firstUnfit_eq_none hx.sound hread).mp hbad) hfit
  | some bad =>
    obtain ⟨-, -, h', -, hrun, -⟩ := load_unfit call hholds hdata (offer_givenApart hread) hbad
    exact ⟨_, _, hrun⟩

/-! ### Configuring a new store -/

/-- Whether a value is called as what loads data into the store that it is given. -/
def Loads (call : Caller κ) (f data : Value) : Prop :=
  (∀ h, Object.isCallable h f = true) ∧
    ∃ inner : Caller κ, ∀ s w, call f (.of [s]) w = load inner s data w

/-- What the command configures the store with loads what it has read. -/
theorem loads_loader (data : Value) : Loads (CommandLine.loader data) (.routine 0) data :=
  ⟨fun _ => rfl, CommandLine.refuse, fun _ _ => rfl⟩

/-- Whether the log was only added to, and no warning was among what was added. -/
def Unwarned (w w' : World κ) : Prop :=
  ∃ records, w'.log = w.log ++ records ∧ ∀ r ∈ records, r.level = .debug

theorem Unwarned.of_log (hlog : w'.log = w.log) : Unwarned w w' :=
  ⟨[], by rw [hlog, List.append_nil], fun _ hr => absurd hr List.not_mem_nil⟩

theorem Unwarned.trans (h₁ : Unwarned w w') (h₂ : Unwarned w' w'') : Unwarned w w'' := by
  obtain ⟨first, hfirst, hdebug⟩ := h₁
  obtain ⟨second, hsecond, hdebug'⟩ := h₂
  refine ⟨first ++ second, by rw [hsecond, hfirst, List.append_assoc], fun r hr => ?_⟩
  exact (List.mem_append.mp hr).elim (hdebug r) (hdebug' r)

/-- A debug record is added to the log. -/
theorem Unwarned.of_record {logger message : String}
    (hlog : w'.log = w.log ++ [⟨.debug, logger, message⟩]) : Unwarned w w' :=
  ⟨_, hlog, fun r hr => by rw [List.mem_singleton.mp hr]⟩

/-- Checking a store comes to what is found wrong with it. -/
theorem check_ends (call : Caller κ) {scalar : String → Value} (hs : w.heap.Sound)
    (hc : Layout w.heap c scalar) : match faults w.heap c scalar with
      | .error e => Registry.check call (.ref c.store) w = .error e w
      | .ok [] => Registry.check call (.ref c.store) w = .ok () w
      | .ok broken => ∃ w', Registry.check call (.ref c.store) w = .error (.violations broken) w' ∧
          Unwarned w w' := by
  simp only [check_eq call hc, Functor.discard, Functor.mapConst, EStateM.map, Function.comp_apply,
    validate_eq call hs hc]
  cases faults w.heap c scalar with
  | error e => rfl
  | ok broken =>
    cases broken with
    | nil => rfl
    | cons first rest => exact ⟨_, rfl, .of_record rfl⟩

/-- A store is made when there is none. -/
theorem current_ok {s : Ref} {g : Heap} (hnone : w.current = none)
    (hcreate : Store.create w.heap = .ok (.ref s) g) :
    ∃ w' : World κ, Registry.current w = .ok (.ref s) w' ∧ w'.heap = g ∧ Unwarned w w' := by
  rw [Registry.current, run_bind_ok run_get, hnone]
  dsimp only
  rw [run_bind_ok (run_onHeap_ok hcreate)]
  exact ⟨_, rfl, rfl, .of_record rfl⟩

/-- If no store is current, configuring makes one, loads the data into it, and checks it. -/
theorem configure_new {f : Value} {s : Ref} {g : Heap} {inner : Caller κ} (hnone : w.current = none)
    (hf : ∀ h, Object.isCallable h f = true)
    (hcall : ∀ s w, call f (.of [s]) w = load inner s v w)
    (hcreate : Store.create w.heap = .ok (.ref s) g) :
    ∃ w₀ : World κ, w₀.heap = g ∧ Unwarned w w₀ ∧ Registry.configure call f w =
      ((load inner (.ref s) v >>= fun _ => Registry.check call (.ref s)) >>= fun _ =>
        get >>= fun w => Action.record .debug Registry.logger
          ("configuration updated: " ++ w.heap.written (.ref s)) >>= fun _ =>
        pure (.ref s)) w₀ := by
  obtain ⟨w₀, hcurrent, hheap, hlog⟩ := current_ok hnone hcreate
  refine ⟨w₀, hheap, hlog, ?_⟩
  rw [Registry.configure, run_bind_ok hcurrent]
  split
  · cases hf .empty
  · rw [run_bind_ok run_get]
    simp only [hf, Bool.not_true, Bool.false_eq_true, if_false, bind, EStateM.bind, hcall, pure,
      EStateM.pure, Functor.discard, Functor.mapConst, EStateM.map, Function.comp_apply]
    cases load inner (.ref s) v w₀ <;> rfl

variable (hs : w.heap.Sound) (hnone : w.current = none) (hd : IsData w.heap (.map ts) v) {f : Value}
  (hf : Loads call f v)

include hs hnone hd hf

/-- Data that have something else than a map for a section cannot be merged. -/
theorem configure_unfit (hfit : ¬ Fit ts) : ∃ type w',
    Registry.configure call f w = .error (.cannotMerge type) w' ∧ Unwarned w w' := by
  obtain ⟨hcallable, inner, hcall⟩ := hf
  obtain ⟨c, g, hcreate, hg, hx, hfresh⟩ := create_stands hs
  obtain ⟨w₀, rfl, hlog, hrun⟩ := configure_new hnone hcallable hcall hcreate
  obtain ⟨type, h', hload⟩ := load_data_unfit inner hx hfresh hg.lasts hd hfit
  refine ⟨type, { w₀ with heap := h' }, ?_, hlog.trans (.of_log rfl)⟩
  rw [hrun]
  exact run_bind_error (run_bind_error hload)

/-- Other data are loaded, and then the store is checked, which comes to what is wrong with what it
holds. -/
theorem configure_fit (hfit : Fit ts) : match (defaultContents.loaded ts).faults with
    | .error e => ∃ w', Registry.configure call f w = .error e w' ∧ Unwarned w w'
    | .ok [] => ∃ (c : Cells) (w' : World κ), Registry.configure call f w = .ok (.ref c.store) w' ∧
        Stands w'.heap c (defaultContents.loaded ts) ∧ Unwarned w w'
    | .ok broken => ∃ w', Registry.configure call f w = .error (.violations broken) w' ∧
        Unwarned w w' := by
  obtain ⟨hcallable, inner, hcall⟩ := hf
  obtain ⟨c, g, hcreate, hg, hx, hfresh⟩ := create_stands hs
  obtain ⟨w₀, rfl, hlog, hrun⟩ := configure_new hnone hcallable hcall hcreate
  obtain ⟨h', hload, hx'⟩ := load_data inner hx hfresh hg.lasts hd hfit
  obtain ⟨scalar, hc, hscalar⟩ := hx'.scalars
  have hlog' : Unwarned w { w₀ with heap := h' } := hlog.trans (.of_log rfl)
  have hcheck := check_ends (w := { w₀ with heap := h' }) call hx'.sound hc
  rw [faults_eq hx' hscalar] at hcheck
  rw [hrun]
  generalize (defaultContents.loaded ts).faults = found at hcheck ⊢
  -- what the check comes to is what it all comes to
  cases found with
  | error e =>
    have hcheck : Registry.check call (.ref c.store) { w₀ with heap := h' } =
      .error e { w₀ with heap := h' } := hcheck
    exact ⟨_, run_bind_error ((run_bind_ok hload).trans hcheck), hlog'⟩
  | ok broken =>
    cases broken with
    | nil =>
      have hboth : (load inner (.ref c.store) v >>= fun _ => Registry.check call (.ref c.store)) w₀ =
          .ok () { w₀ with heap := h' } := (run_bind_ok hload).trans hcheck
      refine ⟨c, _, (run_bind_ok hboth).trans rfl, hx', ?_⟩
      exact hlog'.trans (.of_record rfl)
    | cons first rest =>
      obtain ⟨w₁, hcheck, hlog₁⟩ := hcheck
      exact ⟨w₁, run_bind_error ((run_bind_ok hload).trans hcheck), hlog'.trans hlog₁⟩

end PageMeta.Settings
