import PageMeta.Proofs.Value.Entries

/-!
# Deep merging of trees

What merging a mapping into an attribute map has to give, said on trees that have texts as keys.
Nothing is shared in a tree, so the merge is a plain function of the two contents.

## Key results

- `deepMerge`: old keys in their old order, then the new keys in the order of the other side
- `mergeEntries_concat`: one more key on the other side is one more write
-/

namespace PageMeta

namespace Tree

mutual

/-- Merges a tree into another: maps key by key, and anything else is replaced. -/
def deepMerge : Tree String → Tree String → Tree String
  | .map old, .map new => .map (mergeOld old new ++ new.filter fun p => !Entries.has p.1 old)
  | _, t => t

/-- The old entries, each merged with what the new ones have under its key. -/
def mergeOld : List (String × Tree String) → Entries String (Tree String) →
    List (String × Tree String)
  | [], _ => []
  | (key, t) :: rest, new =>
    (key, match Entries.get? key new with
      | some u => deepMerge t u
      | none => t) :: mergeOld rest new

end

/-- Merges entries: the old ones where they stand, then those with new keys. -/
def mergeEntries (old new : Entries String (Tree String)) : Entries String (Tree String) :=
  mergeOld old new ++ new.filter fun p => !Entries.has p.1 old

/-- What the key of a merge gets: the old value merged with the new one, if there is an old one. -/
def mergeAt (old : Entries String (Tree String)) (key : String) (u : Tree String) : Tree String :=
  match Entries.get? key old with
  | some t => deepMerge t u
  | none => u

/-- Whether a tree is a map. -/
def isMap : Tree String → Bool
  | .map _ => true
  | _ => false

theorem deepMerge_map (old new : Entries String (Tree String)) :
    deepMerge (.map old) (.map new) = .map (mergeEntries old new) := by
  rw [deepMerge]; rfl

/-- Unless both sides are maps, the new side replaces the old one. -/
theorem deepMerge_of_not_map {t u : Tree String} (h : (t.isMap && u.isMap) = false) :
    deepMerge t u = u := by
  cases t <;> cases u <;> first | rfl | simp [isMap] at h

/-- A merge is a map if the new side is one. -/
theorem isMap_deepMerge (t u : Tree String) : (deepMerge t u).isMap = u.isMap := by
  cases t <;> cases u <;> rfl

/-- An item of a list is lower than the list. -/
theorem height_le_heightList {κ : Type} {items : List (Tree κ)} {t : Tree κ} (ht : t ∈ items) :
    t.height ≤ heightList items := by
  induction items with
  | nil => cases ht
  | cons u rest ih =>
    rw [heightList]
    rcases List.mem_cons.mp ht with rfl | hr
    · exact Nat.le_max_left _ _
    · exact Nat.le_trans (ih hr) (Nat.le_max_right _ _)

/-- A value of a map is lower than the map. -/
theorem height_le_heightEntries {κ : Type} {entries : List (κ × Tree κ)} {p : κ × Tree κ}
    (hp : p ∈ entries) : p.2.height ≤ heightEntries entries := by
  induction entries with
  | nil => cases hp
  | cons q rest ih =>
    obtain ⟨key, t⟩ := q
    rw [heightEntries]
    rcases List.mem_cons.mp hp with rfl | hr
    · exact Nat.le_max_left _ _
    · exact Nat.le_trans (ih hr) (Nat.le_max_right _ _)

/-- The old keys stay where they are. -/
@[simp] theorem keys_mergeOld (old : List (String × Tree String))
    (new : Entries String (Tree String)) : Entries.keys (mergeOld old new) = Entries.keys old := by
  induction old with
  | nil => rfl
  | cons p rest ih =>
    obtain ⟨key, t⟩ := p
    simp only [mergeOld, Entries.keys, List.map_cons] at ih ⊢
    rw [ih]

/-- The keys of a merge: the old ones, then those that are new. -/
theorem keys_mergeEntries (old new : Entries String (Tree String)) :
    Entries.keys (mergeEntries old new) =
      Entries.keys old ++ (Entries.keys new).filter fun key => !Entries.has key old := by
  simp only [mergeEntries, Entries.keys, List.map_append, List.filter_map]
  rw [← Entries.keys, keys_mergeOld]
  rfl

/-- A merge keeps the keys apart. -/
theorem nodup_keys_mergeEntries {old new : Entries String (Tree String)}
    (hold : (Entries.keys old).Nodup) (hnew : (Entries.keys new).Nodup) :
    (Entries.keys (mergeEntries old new)).Nodup := by
  rw [keys_mergeEntries, List.nodup_append]
  refine ⟨hold, hnew.sublist List.filter_sublist, fun a ha b hb he => ?_⟩
  subst he
  have hhas := (List.mem_filter.mp hb).2
  rw [Entries.has_iff_mem.mpr ha] at hhas
  cases hhas

/-- Nothing new changes nothing. -/
@[simp] theorem mergeEntries_nil (old : Entries String (Tree String)) :
    mergeEntries old [] = old := by
  have hold : mergeOld old [] = old := by
    induction old with
    | nil => rfl
    | cons p rest ih => obtain ⟨key, t⟩ := p; simp only [mergeOld, Entries.get?_nil, ih]
  simp [mergeEntries, hold]

/-- A key on the new side that no old entry has leaves the old entries alone. -/
private theorem mergeOld_concat_of_not_mem {old : List (String × Tree String)}
    {new : Entries String (Tree String)} {key : String} (u : Tree String)
    (h : key ∉ Entries.keys old) : mergeOld old (new ++ [(key, u)]) = mergeOld old new := by
  induction old with
  | nil => rfl
  | cons p rest ih =>
    obtain ⟨k, t⟩ := p
    simp only [Entries.keys, List.map_cons, List.mem_cons, not_or] at h
    have hk : (key == k) = false := beq_eq_false_iff_ne.mpr h.1
    simp only [mergeOld, Entries.get?_concat, hk, Bool.false_eq_true, if_false, Option.or_none]
    rw [ih h.2]

/-- A key on the new side that an old entry has is written there. -/
private theorem mergeOld_concat_of_mem {old : List (String × Tree String)}
    {new : Entries String (Tree String)} {key : String} {t : Tree String} (u : Tree String)
    (hn : (Entries.keys old).Nodup) (hnew : key ∉ Entries.keys new)
    (h : Entries.get? key old = some t) :
    mergeOld old (new ++ [(key, u)]) = Entries.put key (deepMerge t u) (mergeOld old new) := by
  induction old with
  | nil => simp at h
  | cons p rest ih =>
    obtain ⟨k, w⟩ := p
    simp only [Entries.keys, List.map_cons, List.nodup_cons] at hn
    simp only [mergeOld, Entries.get?_concat, Entries.put]
    rw [Entries.get?] at h
    by_cases hk : (k == key) = true
    · -- the entry itself: no later entry has the key
      have he := eq_of_beq hk
      subst he
      simp only [beq_self_eq_true, if_true, Option.some.injEq] at h ⊢
      subst h
      rw [Entries.get?_eq_none_of_not_mem hnew, mergeOld_concat_of_not_mem u hn.1]
      simp
    · have hk' : (key == k) = false := by
        rw [beq_eq_false_iff_ne]; rintro rfl; simp at hk
      simp only [hk, hk', Bool.false_eq_true, if_false, Option.or_none] at h ⊢
      rw [ih hn.2 h]

/-- One more key on the new side is one more write. -/
theorem mergeEntries_concat {old new : Entries String (Tree String)} {key : String}
    (u : Tree String) (hn : (Entries.keys old).Nodup) (hnew : key ∉ Entries.keys new) :
    mergeEntries old (new ++ [(key, u)]) =
      Entries.put key (mergeAt old key u) (mergeEntries old new) := by
  unfold mergeEntries
  rw [List.filter_append]
  -- the last entry is merged with the old one of its key, or comes after all others
  cases hg : Entries.get? key old with
  | some t =>
    have hhas : Entries.has key old = true := by rw [Entries.has, hg]; rfl
    have hmem : key ∈ Entries.keys (mergeOld old new) := by
      rw [keys_mergeOld]; exact Entries.has_iff_mem.mp hhas
    rw [mergeOld_concat_of_mem u hn hnew hg]
    simp only [mergeAt, hg, hhas, Bool.not_true, Bool.false_eq_true, not_false_eq_true,
      List.filter_cons_of_neg, List.filter_nil, List.append_nil]
    exact put_append_of_mem hmem
  | none =>
    have hhas : Entries.has key old = false := by rw [Entries.has, hg]; rfl
    have hold : key ∉ Entries.keys old := fun hm => by simp [Entries.has_iff_mem.mpr hm] at hhas
    rw [mergeOld_concat_of_not_mem u hold]
    simp only [mergeAt, hg, hhas, Bool.not_false, List.filter_cons_of_pos, List.filter_nil]
    rw [← List.append_assoc]
    refine (Entries.put_of_not_has _ (Bool.eq_false_iff.mpr fun hh => ?_)).symm
    have hmem := Entries.has_iff_mem.mp hh
    simp only [Entries.keys, List.map_append, List.mem_append] at hmem
    rcases hmem with hm | hm
    · exact hold (by rw [← keys_mergeOld old new]; exact hm)
    · obtain ⟨p, hp, rfl⟩ := List.mem_map.mp hm
      exact hnew (List.mem_map_of_mem (List.mem_filter.mp hp).1)
where
  /-- A key of the first part is written there. -/
  put_append_of_mem {α : Type} {key : String} {v : α} {first second : Entries String α}
      (h : key ∈ Entries.keys first) :
      Entries.put key v first ++ second = Entries.put key v (first ++ second) := by
    induction first with
    | nil => simp [Entries.keys] at h
    | cons p rest ih =>
      obtain ⟨k, w⟩ := p
      simp only [List.cons_append, Entries.put]
      by_cases hk : (k == key) = true
      · simp [hk]
      · simp only [Entries.keys, List.map_cons, List.mem_cons] at h
        have hr : key ∈ Entries.keys rest := by
          rcases h with rfl | hr
          · simp at hk
          · exact hr
        simp [hk, ih hr]

end Tree

end PageMeta
