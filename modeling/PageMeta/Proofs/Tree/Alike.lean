import PageMeta.Proofs.Tree.Merge
import PageMeta.Proofs.Tree.Normal
import PageMeta.Value.Basic

/-!
# Trees that are alike

Plain data are equal if they have the same keys with equal values, in any order.  Merging a tree
into another gives the tree itself back, up to the order of keys, exactly if it has kept the keys of
the other wherever both have maps.

## Key results

- `alike_refl`: a tree is like itself
- `alike_deepMerge`: when a merge gives back what was merged
-/

namespace PageMeta.Tree

mutual

/-- Whether two trees are the same up to the order of keys, as parts of a container. -/
def alike : Tree String → Tree String → Bool
  | .leaf v, .leaf w => v.sameScalar true w
  | .list ts, .list us => alikeList ts us
  | .map ts, .map us => ts.length == us.length && alikeEntries ts us
  | _, _ => false

/-- `alike`, item by item. -/
def alikeList : List (Tree String) → List (Tree String) → Bool
  | [], [] => true
  | t :: ts, u :: us => alike t u && alikeList ts us
  | _, _ => false

/-- Whether each entry is like the one that is found under its key. -/
def alikeEntries : List (String × Tree String) → Entries String (Tree String) → Bool
  | [], _ => true
  | (key, t) :: ts, us =>
    (match Entries.get? key us with
      | some u => alike t u
      | none => false) && alikeEntries ts us

end

mutual

/-- Whether a tree has kept the keys of another, wherever both have maps. -/
def keptIn : Tree String → Tree String → Bool
  | .map old, .map new => keptEntries old new
  | _, _ => true

/-- Whether each key is there, with the keys of its value. -/
def keptEntries : List (String × Tree String) → Entries String (Tree String) → Bool
  | [], _ => true
  | (key, t) :: rest, new =>
    (match Entries.get? key new with
      | some u => keptIn t u
      | none => false) && keptEntries rest new

end

/-- The default width survives in a map that has it, and is lost in an empty one. -/
example : keptIn (.map [("a", .map [("b", .leaf .none)])]) (.map [("a", .map [])]) = false := rfl

theorem alikeEntries_iff {ts : List (String × Tree String)} {us : Entries String (Tree String)} :
    alikeEntries ts us = true ↔
      ∀ p ∈ ts, ∃ u, Entries.get? p.1 us = some u ∧ p.2.alike u = true := by
  induction ts with
  | nil => simp [alikeEntries]
  | cons p ts ih =>
    obtain ⟨key, t⟩ := p
    rw [alikeEntries, Bool.and_eq_true, ih, List.forall_mem_cons]
    refine and_congr_left fun _ => ?_
    cases hg : Entries.get? key us with
    | none => simp
    | some u => simp

mutual

/-- A tree that has each key once at every level is like itself. -/
theorem alike_refl : ∀ {t : Tree String}, t.Distinct → t.alike t = true
  | .leaf v, _ => Key.same_refl (.atom v)
  | .list ts, hd => alikeList_refl hd
  | .map ts, hd => by
    rw [alike, beq_self_eq_true, Bool.true_and, alikeEntries_iff]
    exact fun p hp => ⟨p.2, Entries.get?_of_mem hd.1 hp, alikeEntries_refl hd.2 p hp⟩

/-- `alike_refl`, item by item. -/
theorem alikeList_refl : ∀ {ts : List (Tree String)}, DistinctList ts → alikeList ts ts = true
  | [], _ => rfl
  | t :: ts, hd => by rw [alikeList, alike_refl hd.1, alikeList_refl hd.2, Bool.and_self]

/-- `alike_refl`, entry by entry. -/
theorem alikeEntries_refl : ∀ {ts : List (String × Tree String)}, DistinctEntries ts →
    ∀ p ∈ ts, p.2.alike p.2 = true
  | [], _, _, hp => by cases hp
  | (_, _) :: ts, hd, p, hp => by
    rcases List.mem_cons.mp hp with rfl | hp
    · exact alike_refl hd.1
    · exact alikeEntries_refl hd.2 p hp

end

theorem mem_keys_of_keptEntries {old : List (String × Tree String)}
    {new : Entries String (Tree String)} (hk : keptEntries old new = true) :
    ∀ key ∈ Entries.keys old, key ∈ Entries.keys new := by
  induction old with
  | nil => intro key hkey; cases hkey
  | cons p rest ih =>
    obtain ⟨k, t⟩ := p
    rw [keptEntries, Bool.and_eq_true] at hk
    refine List.forall_mem_cons.mpr ⟨?_, ih hk.2⟩
    cases hg : Entries.get? k new with
    | none => rw [hg] at hk; exact absurd hk.1 Bool.false_ne_true
    | some u => exact Entries.has_iff_mem.mp (by rw [Entries.has, hg]; rfl)

/-- If the old keys are all among the new ones, a merge has as many keys as the new side. -/
theorem length_mergeEntries {old new : Entries String (Tree String)}
    (hold : (Entries.keys old).Nodup) (hnew : (Entries.keys new).Nodup)
    (hsub : ∀ key ∈ Entries.keys old, key ∈ Entries.keys new) :
    (mergeEntries old new).length = new.length := by
  have hperm : (Entries.keys (mergeEntries old new)).Perm (Entries.keys new) := by
    refine (List.perm_ext_iff_of_nodup (nodup_keys_mergeEntries hold hnew) hnew).mpr fun key => ?_
    rw [keys_mergeEntries, List.mem_append, List.mem_filter]
    constructor
    · exact fun hk => hk.elim (hsub key) (·.1)
    · intro hk
      by_cases ho : key ∈ Entries.keys old
      · exact .inl ho
      · refine .inr ⟨hk, ?_⟩
        rw [Bool.not_eq_true', Bool.eq_false_iff]
        exact fun hh => ho (Entries.has_iff_mem.mp hh)
  simpa [Entries.keys] using hperm.length_eq

mutual

/-- A merge gives back what was merged, up to the order of keys, exactly if that has kept the old
keys. -/
theorem alike_deepMerge : ∀ {t u : Tree String}, t.Distinct → u.Distinct →
    (t.deepMerge u).alike u = t.keptIn u
  | .leaf _, u, _, hu => by rw [deepMerge_of_not_map rfl, alike_refl hu]; rfl
  | .list _, u, _, hu => by rw [deepMerge_of_not_map rfl, alike_refl hu]; rfl
  | .map _, .leaf _, _, hu => by rw [deepMerge_of_not_map rfl, alike_refl hu]; rfl
  | .map _, .list _, _, hu => by rw [deepMerge_of_not_map rfl, alike_refl hu]; rfl
  | .map old, .map new, ht, hu => by
    have hentries : alikeEntries (mergeEntries old new) new = keptEntries old new := by
      rw [Bool.eq_iff_iff, ← alikeEntries_mergeOld ht.2 hu.2, alikeEntries_iff, alikeEntries_iff]
      constructor
      · exact fun hm p hp => hm p (List.mem_append_left _ hp)
      · intro hm p hp
        rcases List.mem_append.mp hp with hp | hp
        · exact hm p hp
        · -- what only the new side has is there as it is
          have hmem := (List.mem_filter.mp hp).1
          exact ⟨p.2, Entries.get?_of_mem hu.1 hmem, alikeEntries_refl hu.2 p hmem⟩
    rw [deepMerge_map, alike, hentries, keptIn]
    cases hk : keptEntries old new with
    | false => exact Bool.and_false _
    | true =>
      have hlen := length_mergeEntries ht.1 hu.1 (mem_keys_of_keptEntries hk)
      rw [hlen, beq_self_eq_true, Bool.and_self]

/-- `alike_deepMerge` for the old entries. -/
theorem alikeEntries_mergeOld : ∀ {old : List (String × Tree String)}
    {new : Entries String (Tree String)}, DistinctEntries old → DistinctEntries new →
    alikeEntries (mergeOld old new) new = keptEntries old new
  | [], _, _, _ => rfl
  | (key, t) :: rest, new, ho, hn => by
    rw [mergeOld, alikeEntries, keptEntries, alikeEntries_mergeOld ho.2 hn]
    cases hg : Entries.get? key new with
    | none => rfl
    | some u =>
      have hu := distinctEntries_iff.mp hn _ (Entries.mem_of_get? hg)
      simp only [alike_deepMerge ho.1 hu]

end

end PageMeta.Tree
