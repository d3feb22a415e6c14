import PageMeta.Proofs.Builder.Fields
import PageMeta.Proofs.Builder.Rules
import PageMeta.Proofs.Heap.Literals

/-!
# Builders that hold plain data

What the buffer of a builder shows, as entries with names in order.  Setting a value writes an entry,
and building gives the entries in new cells, or the complaints of the rules.  Nothing but the buffer
changes.

## Key results

- `Holds`: the entries that the buffer of a builder shows
- `set_holds`: setting a value writes an entry
- `build_checked`: building gives what `checked` says of the entries
-/

namespace PageMeta

/-- Entries with plain data, by name. -/
abbrev NamedTrees := Entries String (Tree String)

namespace Heap

/-- A later heap in which no cell that was there has changed but one. -/
abbrev AgreeBut (d : Ref) (h h' : Heap) : Prop := Agree (fun r => r ≠ d ∧ r.index < h.size) h h'

variable {h h' h'' : Heap} {d : Ref}

theorem AgreeBut.trans (h₁ : AgreeBut d h h') (h₂ : AgreeBut d h' h'') : AgreeBut d h h'' :=
  ⟨Nat.le_trans h₁.size_le h₂.size_le, fun r hr =>
    (h₂.read_eq r ⟨hr.1, Nat.lt_of_lt_of_le hr.2 h₁.size_le⟩).trans (h₁.read_eq r hr)⟩

/-- A change of a cell that was not there is no change of those that were. -/
theorem extends_of_agreeBut (h₁ : Extends h h') (h₂ : AgreeBut d h' h'')
    (hd : h.size ≤ d.index) : Extends h h'' :=
  ⟨Nat.le_trans h₁.size_le h₂.size_le, fun r hr =>
    (h₂.read_eq r ⟨fun heq => absurd (heq ▸ hr) (Nat.not_lt.mpr hd),
      Nat.lt_of_lt_of_le hr h₁.size_le⟩).trans (h₁.read_eq r hr)⟩

theorem Extends.agreeBut (he : Extends h h') : AgreeBut d h h' := he.mono fun _ hr => hr.2

end Heap

namespace Builder

open Heap (Extends AgreeBut Shown IsTextKeyed)

variable {h h' : Heap} {kind : BuilderKind} {c : Cells} {ts : NamedTrees} {t : Tree String}
  {v : Value} {κ : Type} {call : Caller κ} {w : World κ}

/-- Whether a builder stands in the heap and its buffer shows entries, with the values in other
cells. -/
structure Holds (h : Heap) (kind : BuilderKind) (c : Cells) (ts : NamedTrees) : Prop where
  standing : Standing h kind c
  names : (Entries.keys ts).Nodup
  buffer : ∃ entries, h.read c.buffer = some (.dict entries) ∧ IsTextKeyed (.dict entries) ∧
    Entries.Match (fun _ t v => h.Shown (· ≠ c.buffer) t v) ts entries

namespace Holds

theorem later (hb : Holds h kind c ts) (he : Extends h h') : Holds h' kind c ts := by
  obtain ⟨entries, hread, hkeys, hm⟩ := hb.buffer
  exact ⟨hb.standing.of_extends he, hb.names, entries, he.read_of_some hread, hkeys,
    hm.imp fun _ _ _ hs => (hs.later he).mono fun _ hr => hr.1⟩

/-- The buffer shows the entries as a dictionary. -/
theorem shown (hb : Holds h kind c ts) : h.Shown (fun _ => True) (.map ts) (.ref c.buffer) := by
  obtain ⟨entries, hread, hkeys, hm⟩ := hb.buffer
  refine ⟨⟨entries, by simp [Heap.entries?, Heap.cell?, hread], fun r hr => ⟨trivial, ?_⟩,
    hm.apart_iff.mpr hb.names, ?_⟩, ?_⟩
  · rw [Heap.own, hread] at hr
    rw [List.mem_singleton.mp hr]
    intro c' hc'
    rw [hread] at hc'
    exact Option.some.inj hc' ▸ hkeys
  · exact Heap.readsEntries_iff.mpr (hm.imp fun _ _ _ hs => hs.reads.mono fun _ hr => ⟨trivial, hr.2⟩)
  · refine Tree.allLeavesEntries_iff.mpr fun p hp => ?_
    obtain ⟨q, -, hpq⟩ := Entries.Match.exists_mem hm p hp
    exact hpq.plain

/-- The entries of a finished builder are in cells that were not there before. -/
theorem not_vacant (hb : Holds h kind c ts) : ¬ h.Vacant c.buffer := by
  obtain ⟨entries, hread, -⟩ := hb.buffer
  exact Heap.not_vacant_of_read hread rfl

end Holds

/-- A new builder holds nothing, in a buffer of its own. -/
theorem create_holds (kind : BuilderKind) (h : Heap) :
    ∃ c h', create kind h = .ok (.ref c.builder) h' ∧ Extends h h' ∧ h.size ≤ c.buffer.index ∧
      Holds h' kind c [] := by
  obtain ⟨c, h', hrun, he, hb, -, -, hnew⟩ := create_bare kind h
  refine ⟨c, h', hrun, he, hnew, hb.standing, List.nodup_nil, [], hb.buffer,
    fun entries heq p hp => ?_, .nil⟩
  cases heq
  cases hp

/-! ### Setting -/

/-- A text that is a key is a text once it is made, and no cell changes. -/
theorem settleKey_text (name : String) (mark : Mark) (h : Heap) :
    ∃ mark' h', Heap.settleKey (.atom (.text name mark)) h = .ok (.atom (.text name mark')) h' ∧
      h'.cells = h.cells := by
  obtain ⟨mark', h', hrun, -, hc⟩ := Heap.settle_marked h (.text name mark)
  refine ⟨mark', h', ?_, hc⟩
  simp only [Heap.settleKey, bind, EStateM.bind, hrun]
  rfl

theorem setItem_text {d : Ref} {entries : Entries Key Value} (hd : h.read d = some (.dict entries))
    (name : String) (mark : Mark) (v : Value) :
    Object.setItem (.ref d) (.text name mark) v h =
      .ok () (h.write d (.dict (entries.put (.atom (.text name mark)) v))) := by
  rw [setItem_dict hd]
  rfl

/-- Setting what shows plain data writes an entry, and changes no cell but the buffer. -/
theorem set_holds (hb : Holds h kind c ts) (hv : h.Shown (· ≠ c.buffer) t v) {key : Value}
    {name : String} (hk : ∃ mark, h.nameKey key = .atom (.text name mark)) :
    ∃ h', set (.ref c.builder) key v h = .ok (.ref c.builder) h' ∧ AgreeBut c.buffer h h' ∧
      Holds h' kind c (ts.put name t) := by
  obtain ⟨mark, hkey⟩ := hk
  obtain ⟨mark', h₁, hsettle, hcells⟩ := settleKey_text name mark h
  have he : Extends h h₁ := Heap.extends_of_cells hcells
  have hb₁ := hb.later he
  obtain ⟨entries, hread, hkeys, hm⟩ := hb₁.buffer
  -- after the key is made, all that is written is the buffer, which the value does not open
  let h₂ := h₁.write c.buffer (.dict (entries.put (.atom (.text name mark')) v))
  have hwrite : AgreeBut c.buffer h₁ h₂ :=
    ⟨by rw [Heap.size_write], fun r hr => Heap.read_write_of_ne _ _ _ _ hr.1.symm⟩
  have hv₁ : h₁.Shown (· ≠ c.buffer) t v := (hv.later he).mono fun _ hr => hr.1
  refine ⟨h₂, ?_, he.agreeBut.trans hwrite,
    (hb₁.standing.fill hv₁.inert hread _).standing, Entries.nodup_keys_put _ _ hb.names,
    entries.put (.atom (.text name mark')) v,
    Heap.read_write_self _ _ _ (Heap.lt_size_of_read hread), fun es heq p hp => ?_, ?_⟩
  · rw [set, run_bind_ok run_get, hkey]
    exact (run_bind_ok (getAttribute_buffer hb.standing.placed)).trans ((run_bind_ok hsettle).trans
      (run_bind_ok (setItem_text hread name mark' v)))
  · cases heq
    rcases Entries.mem_put hp with ⟨-, hp | ⟨q, hq, hp⟩⟩ | hp
    · exact ⟨name, mark', hp⟩
    · exact hp ▸ hkeys _ rfl q hq
    · exact hkeys _ rfl p hp
  · refine (Entries.Match.put hm rfl hv₁).imp fun _ _ _ hs => ?_
    exact (hs.agree hwrite).mono fun _ hr => hr.1

/-! ### Building -/

/-- Entries as the result of building, if they pass the rules of the class. -/
def checked (kind : BuilderKind) (ts : NamedTrees) : Except Error (Tree String) := do
  let broken ← faults kind (.map ts)
  if broken.isEmpty then return .map ts else throw (.violations broken)

/-- Checking a builder by the function that it answers to is checking it by the rules of its class. -/
theorem check_eq (call : Caller κ) (hp : Placed w.heap kind c) :
    check call (.ref c.builder) w =
      (discard (Action.onHeap (validate kind (.ref c.builder))) : Action κ Unit) w := by
  have hfacts : ∀ kind, Object.classFunction? (.builder kind) "validate" = none ∧
      (ClassName.builder kind).definer? "validate" =
        some (.builder (if kind.hasRules then kind else .plain)) := by
    intro kind
    cases kind <;> decide +kernel
  have hkind : kind? w.heap (.ref c.builder) = some kind := by
    simp [kind?, Heap.cell?, hp.builder]
  rw [check, run_bind_ok (ask_method hp (hfacts kind).1 (hfacts kind).2 (by decide)),
    run_bind_ok run_get, kept?_public hp (by decide +kernel), hkind]
  -- the two classes without rules of their own have those of all builders, which are none
  cases kind <;> rfl

/-- A builder is finished by its own function. -/
theorem finish_eq (call : Caller κ) (hp : Placed w.heap kind c) :
    finish call (.ref c.builder) w = build call (.ref c.builder) w := by
  have hfacts : ∀ kind, Object.classFunction? (.builder kind) "build" = none ∧
      (ClassName.builder kind).definer? "build" = some (.builder .plain) := by
    intro kind
    cases kind <;> decide +kernel
  rw [finish, run_bind_ok (ask_method hp (hfacts kind).1 (hfacts kind).2 (by decide)),
    run_bind_ok run_get, kept?_public hp (by decide +kernel), Option.getD_none, isOwn_common hp,
    if_pos rfl]

theorem toDict_shown (hb : Holds h kind c ts) :
    ∃ v h', toDict (.ref c.builder) h = .ok v h' ∧ Extends h h' ∧
      h'.Shown h.Vacant (.map ts) v := by
  obtain ⟨v, h', hrun, he, hv⟩ := Heap.detach_shown hb.shown
  exact ⟨v, h', (run_bind_ok (getAttribute_buffer hb.standing.placed)).trans hrun, he, hv⟩

/-- The copy of a buffer is what building gives, for a builder that passes its rules. -/
theorem build_of_toDict (call : Caller κ) (hp : Placed w.heap kind c) {entries : Entries Key Value}
    (hvalid : validate kind (.ref c.builder) w.heap = .ok (.bool true) w.heap)
    (hcopy : toDict (.ref c.builder) w.heap = .ok v h') (hv : h'.cell? v = some (.dict entries)) :
    ∃ w', build call (.ref c.builder) w = .ok v w' ∧ w'.heap = h' := by
  obtain ⟨r, rfl⟩ := Heap.ref_of_cell? hv
  have hread : h'.read r = some (.dict entries) := hv
  have hkeys : Heap.elements (.ref r) h' = .ok (Heap.ofKeys entries.keys) h' := by
    simp only [Heap.elements, bind, EStateM.bind, run_get, hread]
    rfl
  exact ⟨_, (run_bind_ok ((check_eq call hp).trans (run_discard_ok (run_onHeap_ok hvalid)))).trans
    ((run_bind_ok (run_onHeap_ok hcopy)).trans ((run_bind_ok (run_onHeap_ok hkeys)).trans
      ((run_bind_ok run_get).trans (run_bind_ok rfl)))), rfl⟩

/-- Building gives the entries in new cells, if they pass the rules. -/
theorem build_checked (call : Caller κ) (hb : Holds w.heap kind c ts) :
    match checked kind ts with
    | .ok t => ∃ v w', build call (.ref c.builder) w = .ok v w' ∧ Extends w.heap w'.heap ∧
        w'.heap.Shown w.heap.Vacant t v
    | .error e => build call (.ref c.builder) w = .error e w := by
  have hviolations := violations_eq hb.standing hb.shown.reads hb.shown.plain fun _ hr => hr.2
  have hvalidate := validate_run kind (.ref c.builder) w.heap
  rw [hviolations] at hvalidate
  have hcheck := check_eq call hb.standing.placed
  rw [checked]
  -- the rules cannot be asked, or some are broken, or the copy of the buffer is given
  cases hfaults : faults kind (.map ts) with
  | error e =>
    rw [hfaults] at hvalidate
    exact run_bind_error (hcheck.trans (run_discard_error (run_onHeap_error hvalidate)))
  | ok broken =>
    rw [hfaults] at hvalidate
    cases broken with
    | cons first rest =>
      exact run_bind_error (hcheck.trans (run_discard_error (run_onHeap_error hvalidate)))
    | nil =>
      obtain ⟨v, h', hrun, he, hv⟩ := toDict_shown hb
      obtain ⟨entries, hentries, -⟩ := hv.reads
      obtain ⟨r, rfl, ⟨hread, -⟩ | ⟨d, -, -, hview⟩⟩ := Heap.cell_of_entries? hentries
      · obtain ⟨w', hbuild, rfl⟩ := build_of_toDict call hb.standing.placed hvalidate hrun hread
        exact ⟨_, w', hbuild, he, hv⟩
      · exact absurd rfl hview

end Builder

end PageMeta
