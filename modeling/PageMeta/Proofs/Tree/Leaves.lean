import PageMeta.Proofs.Tree.Merge
import PageMeta.Proofs.Tree.Normal

/-!
# Leaves of trees

A test that all leaves of a tree pass, and the leaves of plain data.

## Key results

- `allLeaves_norm`, `allLeaves_deepMerge`: what is made of trees has no other leaves
-/

namespace PageMeta

/-- Whether a value is absent, a truth value, a number or a text, and made. -/
def Value.isPlain : Value → Bool
  | .none | .bool _ => true
  | .int _ mark | .real _ mark | .text _ mark => mark != .pending
  | _ => false

namespace Tree

variable {κ : Type} {p : Value → Bool}

mutual

/-- Whether all leaves pass a test. -/
def allLeaves (p : Value → Bool) : Tree κ → Bool
  | .leaf v => p v
  | .list items => allLeavesList p items
  | .map entries => allLeavesEntries p entries

/-- `allLeaves` for every tree of a list. -/
def allLeavesList (p : Value → Bool) : List (Tree κ) → Bool
  | [] => true
  | t :: rest => allLeaves p t && allLeavesList p rest

/-- `allLeaves` for the value of every entry. -/
def allLeavesEntries (p : Value → Bool) : List (κ × Tree κ) → Bool
  | [] => true
  | (_, t) :: rest => allLeaves p t && allLeavesEntries p rest

end

/-- Whether a tree is plain data. -/
abbrev isPlain (t : Tree κ) : Bool := t.allLeaves Value.isPlain

theorem allLeavesList_iff {items : List (Tree κ)} :
    allLeavesList p items = true ↔ ∀ t ∈ items, t.allLeaves p = true := by
  induction items with
  | nil => simp [allLeavesList]
  | cons t rest ih => simp [allLeavesList, ih]

theorem allLeavesEntries_iff {entries : List (κ × Tree κ)} :
    allLeavesEntries p entries = true ↔ ∀ q ∈ entries, q.2.allLeaves p = true := by
  induction entries with
  | nil => simp [allLeavesEntries]
  | cons q rest ih => obtain ⟨key, t⟩ := q; simp [allLeavesEntries, ih]

mutual

/-- A normal form has no other leaves. -/
theorem allLeaves_norm : ∀ {t : Tree String}, t.allLeaves p = true → t.norm.allLeaves p = true
  | .leaf _, ht => ht
  | .list _, ht => allLeavesList_norm ht
  | .map _, ht =>
    allLeavesEntries_iff.mpr
      (forall_putAll (P := (allLeaves p · = true)) (allLeavesEntries_norm ht) (by simp))

/-- `allLeaves_norm` for every tree of a list. -/
theorem allLeavesList_norm : ∀ {items : List (Tree String)}, allLeavesList p items = true →
    allLeavesList p (normList items) = true
  | [], _ => rfl
  | t :: rest, ht => by
    rw [allLeavesList, Bool.and_eq_true] at ht
    rw [normList, allLeavesList, allLeaves_norm ht.1, allLeavesList_norm ht.2, Bool.and_self]

/-- `allLeaves_norm` for the value of every entry. -/
theorem allLeavesEntries_norm : ∀ {entries : List (String × Tree String)},
    allLeavesEntries p entries = true → ∀ q ∈ normEntries entries, q.2.allLeaves p = true
  | [], _, _, hq => by cases hq
  | (_, t) :: rest, ht, q, hq => by
    rw [allLeavesEntries, Bool.and_eq_true] at ht
    rcases List.mem_cons.mp hq with rfl | hq
    · exact allLeaves_norm ht.1
    · exact allLeavesEntries_norm ht.2 q hq

end

mutual

/-- A merge has the leaves of both sides only. -/
theorem allLeaves_deepMerge : ∀ {t u : Tree String}, t.allLeaves p = true →
    u.allLeaves p = true → (t.deepMerge u).allLeaves p = true
  | .leaf _, _, _, hu => by rw [deepMerge_of_not_map rfl]; exact hu
  | .list _, _, _, hu => by rw [deepMerge_of_not_map rfl]; exact hu
  | .map _, .leaf _, _, hu => by rw [deepMerge_of_not_map rfl]; exact hu
  | .map _, .list _, _, hu => by rw [deepMerge_of_not_map rfl]; exact hu
  | .map old, .map new, ht, hu => by
    rw [deepMerge_map]
    refine allLeavesEntries_iff.mpr fun q hq => ?_
    have hnew := allLeavesEntries_iff.mp hu
    rcases List.mem_append.mp hq with hq | hq
    · exact allLeaves_mergeOld ht hnew q hq
    · exact hnew q (List.mem_filter.mp hq).1

/-- `allLeaves_deepMerge` for every old entry. -/
theorem allLeaves_mergeOld : ∀ {old new : List (String × Tree String)},
    allLeavesEntries p old = true → (∀ q ∈ new, q.2.allLeaves p = true) →
      ∀ q ∈ mergeOld old new, q.2.allLeaves p = true
  | [], _, _, _, _, hq => by cases hq
  | (key, t) :: rest, new, ht, hnew, q, hq => by
    rw [allLeavesEntries, Bool.and_eq_true] at ht
    rw [mergeOld] at hq
    rcases List.mem_cons.mp hq with rfl | hq
    · cases hg : Entries.get? key new with
      | none => exact ht.1
      | some u => exact allLeaves_deepMerge ht.1 (hnew _ (Entries.mem_of_get? hg))
    · exact allLeaves_mergeOld ht.2 hnew q hq

end

end Tree

end PageMeta
