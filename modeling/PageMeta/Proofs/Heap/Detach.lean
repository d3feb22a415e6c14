import Mathlib.Algebra.BigOperators.Group.Finset.Basic
import Mathlib.Algebra.Order.BigOperators.Group.Finset
import PageMeta.Heap.Copy
import PageMeta.Proofs.Heap.PlainData

/-!
# Detached copies

A detached copy renames the addresses of the cells that can be reached and can change.  The search
for these cells is bounded by the number of values that all cells hold, which is enough: a step takes
one address off the front, and adds what a cell leads to only when the cell is seen for the first
time.

## Key results

- `reachable_closed`: what a reachable cell leads to is reachable
- `read_relocate`: the copy of a cell is the cell with all addresses renamed
- `detach_data`: a detached copy of plain data shows the same tree, in new cells
-/

namespace PageMeta

namespace Heap

open Finset (range)

variable {h h' : Heap} {v w : Value} {r s : Ref} {seen front : List Ref} {P : Ref → Prop}

/-! ### The search -/

/-- Number of addresses that the cells lead to that were not seen. -/
def unseen (h : Heap) (seen : List Ref) : Nat :=
  ∑ i ∈ (range h.size).filter fun i => (⟨i⟩ : Ref) ∉ seen, (h.targets ⟨i⟩).length

/-- A cell that is not there leads nowhere. -/
theorem targets_of_size_le (hr : h.size ≤ r.index) : h.targets r = [] := by
  have hread : h.read r = none := Array.getElem?_eq_none hr
  simp [targets, heldBy, hread]

/-- Seeing a cell for the first time takes what it leads to off the number. -/
theorem unseen_cons (hr : r ∉ seen) :
    h.unseen (r :: seen) + (h.targets r).length = h.unseen seen := by
  have hsame : ∀ i, (⟨i⟩ : Ref) ∉ r :: seen ↔ i ≠ r.index ∧ (⟨i⟩ : Ref) ∉ seen := fun i => by
    rw [List.mem_cons, not_or]
    refine and_congr_left fun _ => not_congr ⟨fun heq => by rw [← heq], fun heq => by rw [heq]⟩
  rcases Nat.lt_or_ge r.index h.size with hlt | hge
  · have hinsert : (range h.size).filter (fun i => (⟨i⟩ : Ref) ∉ seen) =
        insert r.index ((range h.size).filter fun i => (⟨i⟩ : Ref) ∉ r :: seen) := by
      ext i
      simp only [Finset.mem_insert, Finset.mem_filter, Finset.mem_range, hsame]
      refine ⟨fun hi => ?_, fun hi => ?_⟩
      · by_cases heq : i = r.index
        · exact .inl heq
        · exact .inr ⟨hi.1, heq, hi.2⟩
      · rcases hi with rfl | hi
        · exact ⟨hlt, hr⟩
        · exact ⟨hi.1, hi.2.2⟩
    rw [unseen, unseen, hinsert, Finset.sum_insert (by simp), Nat.add_comm]
  · rw [targets_of_size_le hge, List.length_nil, Nat.add_zero, unseen, unseen]
    refine Finset.sum_congr (Finset.filter_congr fun i hi => ?_) fun _ _ => rfl
    rw [hsame, and_iff_right]
    rintro rfl
    exact absurd (Finset.mem_range.mp hi) (Nat.not_lt.mpr hge)

theorem foldl_eq_sum {α : Type} (f : α → Nat) : ∀ (as : List α) (n : Nat),
    as.foldl (fun n a => n + f a) n = n + ∑ i ∈ range as.length, (as[i]?.map f).getD 0
  | [], n => by simp
  | a :: as, n => by
    rw [List.foldl_cons, foldl_eq_sum f as, List.length_cons, Finset.sum_range_succ']
    simp only [List.getElem?_cons_succ, List.getElem?_cons_zero, Option.map_some, Option.getD_some]
    omega

/-- There are no more than the values that all cells hold. -/
theorem unseen_le (h : Heap) (seen : List Ref) : h.unseen seen ≤ h.heldCount := by
  have hheld : h.heldCount = ∑ i ∈ range h.size, (h.heldBy ⟨i⟩).length := by
    rw [heldCount, ← Array.foldl_toList, foldl_eq_sum, Nat.zero_add]
    refine Finset.sum_congr (by simp [size]) fun i _ => ?_
    rw [Array.getElem?_toList]
    unfold heldBy read
    cases h.cells[i]? <;> rfl
  calc h.unseen seen ≤ ∑ i ∈ range h.size, (h.targets ⟨i⟩).length :=
        Finset.sum_le_sum_of_subset (Finset.filter_subset _ _)
    _ ≤ ∑ i ∈ range h.size, (h.heldBy ⟨i⟩).length :=
        Finset.sum_le_sum fun _ _ => List.length_filterMap_le _ _
    _ = h.heldCount := hheld.symm

/-- With enough steps the search keeps what was seen, sees everything in front, and goes on from
everything that it sees. -/
theorem reachFrom_spec : ∀ (steps : Nat) (seen front : List Ref),
    front.length + h.unseen seen ≤ steps →
    (∀ r ∈ seen, r ∈ h.reachFrom steps seen front) ∧
    (∀ r ∈ front, r ∈ h.reachFrom steps seen front) ∧
    ∀ r ∈ h.reachFrom steps seen front, r ∈ seen ∨
      ∀ s ∈ h.targets r, s ∈ h.reachFrom steps seen front
  | steps, seen, [], _ => by
    have hend : h.reachFrom steps seen [] = seen := by cases steps <;> rfl
    rw [hend]
    exact ⟨fun _ => id, fun _ hr => absurd hr List.not_mem_nil, fun _ => .inl⟩
  | 0, seen, r :: front, hsteps => by
    rw [List.length_cons] at hsteps
    omega
  | steps + 1, seen, r :: front, hsteps => by
    rw [List.length_cons] at hsteps
    -- an address that was seen is dropped, and the front gets shorter; otherwise what the cell leads
    -- to goes to the front and is not counted as unseen any more
    by_cases hr : r ∈ seen
    · have hskip : h.reachFrom (steps + 1) seen (r :: front) = h.reachFrom steps seen front := by
        rw [reachFrom, if_pos (List.contains_iff_mem.mpr hr)]
      rw [hskip]
      obtain ⟨hseen, hfront, hclosed⟩ := reachFrom_spec steps seen front (by omega)
      exact ⟨hseen, List.forall_mem_cons.mpr ⟨hseen r hr, hfront⟩, hclosed⟩
    · have hvisit : h.reachFrom (steps + 1) seen (r :: front) =
          h.reachFrom steps (r :: seen) (h.targets r ++ front) := by
        rw [reachFrom, if_neg (mt List.contains_iff_mem.mp hr)]
      rw [hvisit]
      have hfuel : (h.targets r ++ front).length + h.unseen (r :: seen) ≤ steps := by
        have hless := unseen_cons (h := h) hr
        rw [List.length_append]
        omega
      obtain ⟨hseen, hfront, hclosed⟩ := reachFrom_spec steps (r :: seen) _ hfuel
      obtain ⟨hself, hseen⟩ := List.forall_mem_cons.mp hseen
      obtain ⟨htargets, hfront⟩ := List.forall_mem_append.mp hfront
      refine ⟨hseen, List.forall_mem_cons.mpr ⟨hself, hfront⟩, fun s hs => ?_⟩
      rcases hclosed s hs with hin | hall
      · rcases List.mem_cons.mp hin with rfl | hin
        · exact .inr htargets
        · exact .inl hin
      · exact .inr hall

/-- The search sees nothing but what it is led to. -/
theorem reachFrom_of_closed (hstep : ∀ r, P r → ∀ s ∈ h.targets r, P s) :
    ∀ (steps : Nat) {seen front : List Ref}, (∀ r ∈ seen, P r) → (∀ r ∈ front, P r) →
      ∀ r ∈ h.reachFrom steps seen front, P r
  | 0, _, _, hseen, _ => hseen
  | _ + 1, _, [], hseen, _ => hseen
  | steps + 1, seen, r :: front, hseen, hfront => by
    obtain ⟨hr, hrest⟩ := List.forall_mem_cons.mp hfront
    rw [reachFrom]
    split
    · exact reachFrom_of_closed hstep steps hseen hrest
    · exact reachFrom_of_closed hstep steps (List.forall_mem_cons.mpr ⟨hr, hseen⟩)
        (List.forall_mem_append.mpr ⟨hstep r hr, hrest⟩)

/-- The search for what can be reached has enough steps. -/
theorem reachable_spec (h : Heap) (v : Value) :
    (∀ r ∈ v.target?, r ∈ h.reachable v) ∧
      ∀ r ∈ h.reachable v, ∀ s ∈ h.targets r, s ∈ h.reachable v := by
  have hfuel : v.target?.toList.length + h.unseen [] ≤ h.heldCount + 2 := by
    have hle := unseen_le h []
    have hone : v.target?.toList.length ≤ 1 := by cases v.target? <;> simp
    omega
  obtain ⟨-, hfront, hclosed⟩ := reachFrom_spec (h.heldCount + 2) [] v.target?.toList hfuel
  simp only [reachable, List.mem_reverse]
  exact ⟨fun r hr => hfront r (Option.mem_toList.mpr hr),
    fun r hr => (hclosed r hr).resolve_left List.not_mem_nil⟩

theorem mem_reachable (hv : v.target? = some r) : r ∈ h.reachable v := (reachable_spec h v).1 r hv

/-- What a reachable cell leads to is reachable. -/
theorem reachable_closed (hr : r ∈ h.reachable v) (hs : s ∈ h.targets r) : s ∈ h.reachable v :=
  (reachable_spec h v).2 r hr s hs

/-- Nothing is reachable but what one is led to. -/
theorem reachable_of_closed (hstep : ∀ r, P r → ∀ s ∈ h.targets r, P s)
    (hv : ∀ r ∈ v.target?, P r) : ∀ r ∈ h.reachable v, P r := fun r hr =>
  reachFrom_of_closed hstep _ (fun _ hn => absurd hn List.not_mem_nil)
    (fun r hr => hv r (Option.mem_toList.mp hr)) r (List.mem_reverse.mp hr)

/-! ### The copy -/

/-- A cell stays what it is in the copy, or its copy is a new cell. -/
theorem relocate_cases (h : Heap) (copied : List Ref) (r : Ref) :
    (r ∉ copied ∧ h.relocate copied r = r) ∨
      r ∈ copied ∧ ∃ i, copied[i]? = some r ∧ h.relocate copied r = ⟨h.size + i⟩ := by
  unfold relocate
  cases hi : copied.idxOf? r with
  | none => exact .inl ⟨List.idxOf?_eq_none_iff.mp hi, rfl⟩
  | some i =>
    obtain ⟨hlt, hget, -⟩ := List.idxOf?_eq_some_iff.mp hi
    exact .inr ⟨hget ▸ List.getElem_mem hlt, i, List.getElem?_eq_some_iff.mpr ⟨hlt, hget⟩, rfl⟩

/-- No cell that was there is touched. -/
theorem withCopies_extends (h : Heap) (copied : List Ref) : Extends h (h.withCopies copied) :=
  ⟨by simp [withCopies, size], fun _ hr => Array.getElem?_append_left hr⟩

/-- A new cell is the copy of one of the cells that are copied. -/
theorem read_withCopies {copied : List Ref} {i : Nat} :
    (h.withCopies copied).read ⟨h.size + i⟩ =
      copied[i]?.map fun r => ((h.read r).getD default).rename (h.relocate copied) := by
  simp only [withCopies, read, size]
  rw [Array.getElem?_append_right (Nat.le_add_right _ _), Nat.add_sub_cancel_left,
    List.getElem?_toArray, List.getElem?_map]

/-- The copy of a cell is the cell with all addresses renamed. -/
theorem read_relocate {copied : List Ref} {c : Cell} (hr : r ∈ copied) (hc : h.read r = some c) :
    (h.withCopies copied).read (h.relocate copied r) = some (c.rename (h.relocate copied)) ∧
      h.size ≤ (h.relocate copied r).index := by
  obtain ⟨hno, -⟩ | ⟨-, i, hget, heq⟩ := relocate_cases h copied r
  · exact absurd hr hno
  · rw [heq]
    exact ⟨by rw [read_withCopies, hget, Option.map_some, hc, Option.getD_some],
      Nat.le_add_right _ _⟩

/-- What becomes of a value and of the heap. -/
theorem eq_of_detach (hrun : detach v h = .ok w h') :
    w = v.rename (h.relocate (h.copiedFor v)) ∧ h' = h.withCopies (h.copiedFor v) := by
  simp only [detach] at hrun
  split at hrun
  · cases hrun
  · cases hrun
    exact ⟨rfl, rfl⟩

/-- Copying makes new cells only. -/
theorem detach_extends (v : Value) (h : Heap) :
    Outcome (detach v) h (fun _ h' => Extends h h') (Extends h) := by
  unfold Outcome
  split
  · rename_i hrun
    rw [(eq_of_detach hrun).2]
    exact withCopies_extends h _
  · rename_i hrun
    simp only [detach] at hrun
    split at hrun <;> cases hrun
    exact .refl _ _

/-! ### What cannot be copied -/

/-- Whether a live view of a dictionary can be reached from a value. -/
def ReachesView (h : Heap) (v : Value) : Prop :=
  ∃ r ∈ h.reachable v, ((h.read r).bind Cell.uncopyable?).isSome = true

instance (h : Heap) (v : Value) : Decidable (h.ReachesView v) :=
  inferInstanceAs (Decidable (∃ r ∈ h.reachable v, _))

/-- Only live views cannot be copied. -/
theorem detach_of_no_view (hv : ¬ h.ReachesView v) : detach v h =
    .ok (v.rename (h.relocate (h.copiedFor v))) (h.withCopies (h.copiedFor v)) := by
  have hnone : (h.copiedFor v).findSome? (fun r => (h.read r).bind Cell.uncopyable?) = none := by
    refine List.findSome?_eq_none_iff.mpr fun r hr => Option.not_isSome_iff_eq_none.mp fun hsome => ?_
    exact hv ⟨r, (List.mem_filter.mp hr).1, hsome⟩
  simp only [detach, hnone]

/-- A live view that can be reached is not left alone, and so nothing is copied. -/
theorem detach_of_view (hv : h.ReachesView v) :
    ∃ type ∈ ["dict_keys", "dict_values", "dict_items"],
      detach v h = .error (.cannotCopy type) h := by
  obtain ⟨r, hr, hview⟩ := hv
  have hcopied : r ∈ h.copiedFor v := by
    refine List.mem_filter.mpr ⟨hr, ?_⟩
    cases hread : h.read r with
    | none => rw [hread] at hview; cases hview
    | some c =>
      rw [hread] at hview
      cases c <;> first | (cases hview; done) | simp [stays, depth, staysTo, hread]
  obtain ⟨type, htype⟩ : ∃ type,
      (h.copiedFor v).findSome? (fun r => (h.read r).bind Cell.uncopyable?) = some type := by
    refine Option.isSome_iff_exists.mp ?_
    rw [List.isSome_findSome?]
    exact List.any_eq_true.mpr ⟨r, hcopied, hview⟩
  refine ⟨type, ?_, by simp only [detach, htype]⟩
  obtain ⟨s, -, hs⟩ := List.exists_of_findSome?_eq_some htype
  cases hread : h.read s with
  | none => rw [hread] at hs; cases hs
  | some c =>
    rw [hread] at hs
    cases c <;> cases hs <;> decide

/-- A dictionary is copied as one. -/
theorem detach_dict {entries : Entries Key Value} (hr : h.read r = some (.dict entries))
    (hv : ¬ h.ReachesView (.ref r)) : ∃ r' entries' h', detach (.ref r) h = .ok (.ref r') h' ∧
      h'.read r' = some (.dict entries') := by
  have hstays : h.stays (.ref r) = false := by simp [stays, depth, staysTo, hr]
  have hcopied : r ∈ h.copiedFor (.ref r) :=
    List.mem_filter.mpr ⟨mem_reachable rfl, by rw [hstays]; rfl⟩
  exact ⟨_, _, _, detach_of_no_view hv, (read_relocate hcopied hr).1⟩

/-! ### What leads where in a copy -/

/-- Whether cells that lead nowhere else stand in a later heap under other addresses. -/
structure Moves (cells : Ref → Prop) (f : Ref → Ref) (h h' : Heap) : Prop where
  closed : ∀ r, cells r → ∀ s ∈ h.targets r, cells s
  read : ∀ r c, cells r → h.read r = some c → h'.read (f r) = some (c.rename f)

theorem mem_targets {c : Cell} (hr : h.read r = some c) (hw : w ∈ c.values)
    (hs : w.target? = some s) : s ∈ h.targets r := by
  rw [targets, heldBy, hr]
  exact List.mem_filterMap.mpr ⟨w, hw, hs⟩

/-! ### Plain data -/

/-- A text that is a key has no address. -/
theorem mapValues_of_text? {key : Key} {name : String} (f : Ref → Ref)
    (hk : key.text? = some name) : key.mapValues (Value.rename f) = key := by
  cases key with
  | tuple r items => cases hk
  | atom v => cases v <;> first | (cases hk; done) | rfl

/-- What leads nowhere has no address. -/
theorem rename_of_target? (f : Ref → Ref) : ∀ {v : Value}, v.target? = none → v.rename f = v
  | .method receiver owner name mark, hv => by
    rw [Value.target?] at hv
    rw [Value.rename]
    split
    · rename_i hcopied
      rw [if_pos hcopied] at hv
      rw [rename_of_target? f hv]
    · rfl
  | .ref _, hv => by cases hv
  | .none, _ | .bool _, _ | .int _ _, _ | .real _ _, _ | .text _ _, _ | .bytes _ _, _
  | .function _ _, _ | .classOf _, _ | .sectionHandle _, _ | .feature _, _ | .routine _, _ => rfl

theorem target?_of_isPlain (hv : v.isPlain = true) : v.target? = none := by
  cases v <;> first | (cases hv; done) | rfl

section PlainCopy

variable {cells within : Ref → Prop} {f : Ref → Ref}

/-- What is in plain data is moved if the whole is. -/
theorem Moves.part (hm : Moves cells f h h') (hr : cells r) {c : Cell} (hc : h.read r = some c)
    (hw : w ∈ c.values) : ∀ s ∈ w.target?, cells s :=
  fun s hs => hm.closed r hr s (mem_targets hc hw hs)

mutual

/-- Plain data that are moved show what they show. -/
theorem moved_reads (hm : Moves cells f h h') : ∀ {t : Tree String} {v : Value},
    h.Reads .plain within t v → t.isPlain = true → (∀ r ∈ v.target?, cells r) →
      h'.Reads .plain (fun s => ∃ r, cells r ∧ f r = s) t (v.rename f)
  | .leaf u, v, hr, hp, _ => by
    obtain ⟨rfl, -⟩ := hr
    have hv : v.isPlain = true := hp
    rw [rename_of_target? _ (target?_of_isPlain hv)]
    exact ⟨rfl, isLeaf_of_isPlain hv, fun r hr => by cases v <;> first | (cases hv; done) | cases hr⟩
  | .list ts, v, hr, hp, hv => by
    obtain ⟨items, hi, -, hts⟩ := hr
    obtain ⟨r, rfl, -⟩ := ref_of_items? hi
    have hread := read_of_items? (by decide) hi
    have hmoved := hm.read r _ (hv r rfl) hread
    refine ⟨items.map (Value.rename f), ?_, fun s hs => ?_,
      movedItems_reads hm hts hp fun w hw => hm.part (hv r rfl) hread hw⟩
    · simp [items?, cell?, Value.rename, hmoved, Cell.rename]
    · rw [Value.rename, own, hmoved] at hs
      exact ⟨r, hv r rfl, (List.mem_singleton.mp hs).symm⟩
  | .map ts, v, hr, hp, hv => by
    obtain ⟨entries, he, -, hapart, hts⟩ := hr
    obtain ⟨r, rfl, ⟨hread, -⟩ | ⟨d, -, -, hview⟩⟩ := cell_of_entries? he
    swap
    · exact absurd rfl hview
    have hmoved := hm.read r _ (hv r rfl) hread
    have hparts : ∀ p ∈ entries, ∀ s ∈ p.2.target?, cells s := fun p hp =>
      hm.part (hv r rfl) hread (List.mem_flatMap.mpr ⟨p, hp, by simp⟩)
    have hentries := movedEntries_reads hm hts hp hparts
    refine ⟨_, ?_, fun s hs => ?_, ?_, hentries⟩
    · simp [entries?, cell?, Value.rename, hmoved, Cell.rename]
    · rw [Value.rename, own, hmoved] at hs
      exact ⟨r, hv r rfl, (List.mem_singleton.mp hs).symm⟩
    · -- the names are the same
      exact (hentries.matched (by decide)).apart_iff.mpr
        ((hts.matched (by decide)).apart_iff.mp hapart)

/-- `moved_reads`, item by item. -/
theorem movedItems_reads (hm : Moves cells f h h') : ∀ {ts : List (Tree String)}
    {vs : List Value}, h.ReadsItems .plain within ts vs → Tree.allLeavesList Value.isPlain ts = true →
      (∀ v ∈ vs, ∀ r ∈ v.target?, cells r) →
      h'.ReadsItems .plain (fun s => ∃ r, cells r ∧ f r = s) ts (vs.map (Value.rename f))
  | [], vs, hr, _, _ => by
    rw [ReadsItems] at hr ⊢
    rw [hr, List.map_nil]
  | t :: ts, vs, hr, hp, hv => by
    obtain ⟨v, rest, rfl, ht, hts⟩ := hr
    rw [Tree.allLeavesList, Bool.and_eq_true] at hp
    obtain ⟨hhead, hrest⟩ := List.forall_mem_cons.mp hv
    exact ⟨_, _, rfl, moved_reads hm ht hp.1 hhead, movedItems_reads hm hts hp.2 hrest⟩

/-- `moved_reads`, entry by entry. -/
theorem movedEntries_reads (hm : Moves cells f h h') : ∀ {ts : List (String × Tree String)}
    {es : Entries Key Value}, h.ReadsEntries .plain within ts es →
      Tree.allLeavesEntries Value.isPlain ts = true → (∀ p ∈ es, ∀ r ∈ p.2.target?, cells r) →
      h'.ReadsEntries .plain (fun s => ∃ r, cells r ∧ f r = s) ts
        (es.map fun p => (p.1.mapValues (Value.rename f), p.2.rename f))
  | [], es, hr, _, _ => by
    rw [ReadsEntries] at hr ⊢
    rw [hr, List.map_nil]
  | (name, t) :: ts, es, hr, hp, hv => by
    obtain ⟨key, v, rest, rfl, hk, ht, hts⟩ := hr
    rw [Tree.allLeavesEntries, Bool.and_eq_true] at hp
    obtain ⟨hhead, hrest⟩ := List.forall_mem_cons.mp hv
    refine ⟨key, _, _, ?_, hk, moved_reads hm ht hp.1 hhead, movedEntries_reads hm hts hp.2 hrest⟩
    rw [List.map_cons, mapValues_of_text? _ hk]

end

/-- Plain data that lead to a cell are that cell. -/
theorem Reads.ref_of_target? {t : Tree String} (hr : h.Reads .plain within t v)
    (hp : t.isPlain = true) (hs : v.target? = some s) : v = .ref s := by
  cases t with
  | leaf u =>
    obtain ⟨rfl, -⟩ := hr
    rw [target?_of_isPlain hp] at hs
    cases hs
  | list ts =>
    obtain ⟨items, hi, -⟩ := hr
    obtain ⟨r, rfl, -⟩ := ref_of_items? hi
    cases hs
    rfl
  | map ts =>
    obtain ⟨entries, he, -⟩ := hr
    obtain ⟨r, rfl, -⟩ := ref_of_entries? he
    cases hs
    rfl

/-- Whether a cell shows plain data. -/
def IsPlainCell (h : Heap) (within : Ref → Prop) (r : Ref) : Prop :=
  ∃ t, h.Reads .plain within t (.ref r) ∧ t.isPlain = true

namespace IsPlainCell

/-- A cell of plain data is a list of plain data, or a dictionary of plain data with texts as keys. -/
theorem cases (hr : h.IsPlainCell within r) : within r ∧
    ((∃ items, h.read r = some (.list items) ∧
      ∀ w ∈ items, ∃ u, h.Reads .plain within u w ∧ u.isPlain = true) ∨
    ∃ entries, h.read r = some (.dict entries) ∧
      ∀ p ∈ entries, (∃ name, p.1.text? = some name) ∧
        ∃ u, h.Reads .plain within u p.2 ∧ u.isPlain = true) := by
  obtain ⟨t, hr, hp⟩ := hr
  cases t with
  | leaf u =>
    obtain ⟨rfl, -⟩ := hr
    cases hp
  | list ts =>
    obtain ⟨items, hi, hown, hts⟩ := hr
    refine ⟨hown r (own_ref_mem r), .inl ⟨items, read_of_items? (by decide) hi, fun w hw => ?_⟩⟩
    obtain ⟨u, hu, hread⟩ := hts.exists_mem w hw
    exact ⟨u, hread, Tree.allLeavesList_iff.mp hp u hu⟩
  | map ts =>
    obtain ⟨entries, he, hown, -, hts⟩ := hr
    obtain ⟨r', heq, ⟨hread, -⟩ | ⟨d, -, -, hview⟩⟩ := cell_of_entries? he
    · cases heq
      refine ⟨hown r (own_ref_mem r), .inr ⟨entries, hread, fun p hpe => ?_⟩⟩
      obtain ⟨q, hq, hk, hread⟩ := hts.exists_mem p hpe
      exact ⟨⟨q.1, hk⟩, q.2, hread, Tree.allLeavesEntries_iff.mp hp q hq⟩
    · exact absurd rfl hview

/-- Plain data lead to plain data. -/
theorem target (hr : h.IsPlainCell within r) (hs : s ∈ h.targets r) : h.IsPlainCell within s := by
  obtain ⟨-, ⟨items, hread, hitems⟩ | ⟨entries, hread, hentries⟩⟩ := hr.cases
  all_goals
    rw [targets, heldBy, hread] at hs
    obtain ⟨w, hw, hs⟩ := List.mem_filterMap.mp hs
  · obtain ⟨u, hu, hp⟩ := hitems w hw
    exact ⟨u, hu.ref_of_target? hp hs ▸ hu, hp⟩
  · obtain ⟨p, hpe, hw⟩ := List.mem_flatMap.mp hw
    obtain ⟨⟨name, hk⟩, u, hu, hp⟩ := hentries p hpe
    rcases List.mem_pair.mp hw with rfl | rfl
    · -- a text leads nowhere
      exfalso
      cases hkey : p.1 with
      | tuple => rw [hkey] at hk; cases hk
      | atom x =>
        rw [hkey] at hk hs
        cases x <;> first | (cases hk; done) | cases hs
    · exact ⟨u, hu.ref_of_target? hp hs ▸ hu, hp⟩

/-- A cell of plain data is copied. -/
theorem not_stays (hr : h.IsPlainCell within r) : h.stays (.ref r) = false := by
  obtain ⟨-, ⟨items, hread, -⟩ | ⟨entries, hread, -⟩⟩ := hr.cases <;>
    simp [stays, depth, staysTo, hread]

/-- A cell of plain data can be copied. -/
theorem copyable (hr : h.IsPlainCell within r) : (h.read r).bind Cell.uncopyable? = none := by
  obtain ⟨-, ⟨items, hread, -⟩ | ⟨entries, hread, -⟩⟩ := hr.cases <;> rw [hread] <;> rfl

end IsPlainCell

/-- A detached copy of plain data shows the same tree, in new cells. -/
theorem detach_data {t : Tree String} (hr : h.Reads .plain within t v) (hp : t.isPlain = true) :
    ∃ copied, (∀ r ∈ copied, within r) ∧
      detach v h = .ok (v.rename (h.relocate copied)) (h.withCopies copied) ∧
      (h.withCopies copied).Reads .plain (fun r => h.size ≤ r.index) t
        (v.rename (h.relocate copied)) := by
  have hcells : ∀ r ∈ h.reachable v, h.IsPlainCell within r :=
    reachable_of_closed (fun r hr s hs => hr.target hs)
      fun r hv => ⟨t, hr.ref_of_target? hp hv ▸ hr, hp⟩
  -- so nothing that can be reached stays
  have hall : h.copiedFor v = h.reachable v :=
    List.filter_eq_self.mpr fun r hr => by rw [(hcells r hr).not_stays]; rfl
  have hmoves : Moves (· ∈ h.reachable v) (h.relocate (h.reachable v)) h
      (h.withCopies (h.reachable v)) :=
    ⟨fun r hr s => reachable_closed hr, fun r c hr hc => (read_relocate hr hc).1⟩
  refine ⟨h.reachable v, fun r hr => (hcells r hr).cases.1, ?_,
    (moved_reads hmoves hr hp fun r => mem_reachable).mono ?_⟩
  · have hnone : (h.reachable v).findSome? (fun r => (h.read r).bind Cell.uncopyable?) = none :=
      List.findSome?_eq_none_iff.mpr fun r hr => (hcells r hr).copyable
    simp only [detach, hall, hnone]
  · rintro s ⟨r, hr, rfl⟩
    obtain ⟨-, ⟨_, hread, -⟩ | ⟨_, hread, -⟩⟩ := (hcells r hr).cases <;>
      exact (read_relocate hr hread).2

end PlainCopy

end Heap

end PageMeta
