import PageMeta.Proofs.Tree.Layers
import PageMeta.Proofs.Tree.Twin

/-!
# Merging in any order

Two trees that never say different things can be merged into a third in either order.  What was
there may be a value where both have a map: then the first of them replaces it and the second is
merged into the first, so the two sides swap their parts.

## Key results

- `twin_deepMerge_comm`: compatible trees can be merged into each other
- `twin_deepMerge_swap`: they can be merged into a third tree in either order
-/

namespace PageMeta.Tree

variable {s t u : Tree String} {ss ts us : Entries String (Tree String)} {key : String}

/-- Whether at every path where both trees have something, both have maps, or the same content that
is no map. -/
def Compatible (t u : Tree String) : Prop :=
  ∀ way t' u', t.at? way = some t' → u.at? way = some u' →
    t'.isMap = true ∧ u'.isMap = true ∨ t'.isMap = false ∧ Twin t' u'

/-- Twins are both maps or neither is. -/
theorem Twin.isMap_eq (h : Twin t u) : t.isMap = u.isMap := by
  cases t <;> cases u <;> first | rfl | exact h.elim

namespace Compatible

theorem top (h : Compatible t u) :
    t.isMap = true ∧ u.isMap = true ∨ t.isMap = false ∧ Twin t u := h [] t u t.at?_nil u.at?_nil

/-- What maps have under one key is compatible if the maps are. -/
theorem get? (h : Compatible (.map ts) (.map us)) (ht : Entries.get? key ts = some t)
    (hu : Entries.get? key us = some u) : Compatible t u :=
  fun way t' u' ht' hu' => h (key :: way) t' u' (by rwa [at?_cons ht]) (by rwa [at?_cons hu])

end Compatible

/-- Maps are compatible if what both have under one key is. -/
theorem compatible_map (h : ∀ p ∈ ts, ∀ u, Entries.get? p.1 us = some u → Compatible p.2 u) :
    Compatible (.map ts) (.map us) := by
  intro way t' u' ht hu
  cases way with
  | nil => cases ht; cases hu; exact .inl ⟨rfl, rfl⟩
  | cons key way =>
    cases hkt : Entries.get? key ts with
    | none => rw [at?, hkt] at ht; cases ht
    | some t =>
      cases hku : Entries.get? key us with
      | none => rw [at?, hku] at hu; cases hu
      | some u =>
        rw [at?_cons hkt] at ht
        rw [at?_cons hku] at hu
        exact h _ (Entries.mem_of_get? hkt) u hku way t' u' ht hu

/-- A tree that has each key once at every level has so under every key. -/
theorem Distinct.get? (hd : (Tree.map ts).Distinct) (ht : Entries.get? key ts = some t) :
    t.Distinct := distinctEntries_iff.mp hd.2 _ (Entries.mem_of_get? ht)

/-- What is under a key is lower than the map. -/
theorem height_get?_lt (ht : Entries.get? key ts = some t) : t.height < (Tree.map ts).height := by
  rw [height]
  exact Nat.lt_succ_of_le (height_le_heightEntries (Entries.mem_of_get? ht))

/-- What may be there has its own content. -/
theorem twinOn_refl (hd : ∀ t, Entries.get? key ts = some t → t.Distinct) :
    TwinOn (Entries.get? key ts) (Entries.get? key ts) := by
  cases hk : Entries.get? key ts with
  | none => trivial
  | some t => exact twin_refl (hd t hk)

/-- A merge of trees that have each key once at every level has so. -/
theorem distinct_deepMerge (ht : t.Distinct) (hu : u.Distinct) : (t.deepMerge u).Distinct :=
  overlay_of_distinct ht hu ▸ distinct_overlay ht

/-- Compatible trees can be merged into each other. -/
theorem twin_deepMerge_comm (ht : t.Distinct) (hu : u.Distinct) (h : Compatible t u) :
    Twin (u.deepMerge t) (t.deepMerge u) := by
  induction hn : t.height using Nat.strongRecOn generalizing t u with
  | ind n ih =>
    rcases h.top with ⟨hmt, hmu⟩ | ⟨hmt, htwin⟩
    · obtain ⟨⟨ts, rfl⟩, us, rfl⟩ : (∃ ts, t = .map ts) ∧ ∃ us, u = .map us := by
        cases t <;> cases u <;> simp [isMap] at hmt hmu ⊢
      rw [deepMerge_map, deepMerge_map, twin_map_iff (nodup_keys_mergeEntries hu.1 ht.1)
        (nodup_keys_mergeEntries ht.1 hu.1)]
      intro key
      rw [get?_mergeEntries_eq, get?_mergeEntries_eq]
      cases hkt : Entries.get? key ts with
      | none => simpa using twinOn_refl fun u hku => hu.get? hku
      | some t' =>
        cases hku : Entries.get? key us with
        | none => exact twin_refl (ht.get? hkt)
        | some u' =>
          exact ih _ (hn ▸ height_get?_lt hkt) (ht.get? hkt) (hu.get? hku) (h.get? hkt hku) rfl
    · -- both are replaced, by what has the same content
      have hmu := htwin.isMap_eq ▸ hmt
      rw [deepMerge_of_not_map (by rw [hmt, Bool.and_false]),
        deepMerge_of_not_map (by rw [hmu, Bool.and_false])]
      exact htwin

/-- Compatible trees can be merged into a third tree in either order. -/
theorem twin_deepMerge_swap (hs : s.Distinct) (ht : t.Distinct) (hu : u.Distinct)
    (h : Compatible t u) : Twin ((s.deepMerge u).deepMerge t) ((s.deepMerge t).deepMerge u) := by
  induction hn : t.height using Nat.strongRecOn generalizing s t u with
  | ind n ih =>
    cases hms : s.isMap with
    | false =>
      -- what was there is replaced by the first, so the two are merged into each other
      have hfirst : ∀ t : Tree String, s.deepMerge t = t := fun t =>
        deepMerge_of_not_map (by rw [hms, Bool.false_and])
      rw [hfirst, hfirst]
      exact twin_deepMerge_comm ht hu h
    | true =>
      rcases h.top with ⟨hmt, hmu⟩ | ⟨hmt, htwin⟩
      · obtain ⟨⟨ss, rfl⟩, ⟨ts, rfl⟩, us, rfl⟩ :
            (∃ ss, s = .map ss) ∧ (∃ ts, t = .map ts) ∧ ∃ us, u = .map us := by
          cases s <;> cases t <;> cases u <;> simp [isMap] at hms hmt hmu ⊢
        simp only [deepMerge_map]
        rw [twin_map_iff (nodup_keys_mergeEntries (nodup_keys_mergeEntries hs.1 hu.1) ht.1)
          (nodup_keys_mergeEntries (nodup_keys_mergeEntries hs.1 ht.1) hu.1)]
        intro key
        -- a key that only one of the two has is merged as if the other were not there
        have hone : ∀ {us : Entries String (Tree String)}, (Tree.map us).Distinct →
            TwinOn (mergeOn (Entries.get? key ss) (Entries.get? key us))
              (mergeOn (Entries.get? key ss) (Entries.get? key us)) := fun {us} hu => by
          have hd := deepMerge_map ss us ▸ distinct_deepMerge hs hu
          rw [← get?_mergeEntries_eq]
          exact twinOn_refl fun t ht => hd.get? ht
        simp only [get?_mergeEntries_eq]
        cases hkt : Entries.get? key ts with
        | none => simpa using hone hu
        | some t' =>
          cases hku : Entries.get? key us with
          | none =>
            rw [mergeOn_none_right, mergeOn_none_right, ← hkt]
            exact hone ht
          | some u' =>
            cases hks : Entries.get? key ss with
            | none =>
              exact twin_deepMerge_comm (ht.get? hkt) (hu.get? hku) (h.get? hkt hku)
            | some s' =>
              exact ih _ (hn ▸ height_get?_lt hkt) (hs.get? hks) (ht.get? hkt) (hu.get? hku)
                (h.get? hkt hku) rfl
      · have hmu := htwin.isMap_eq ▸ hmt
        rw [deepMerge_of_not_map (by rw [hmt, Bool.and_false]),
          deepMerge_of_not_map (by rw [hmu, Bool.and_false])]
        exact htwin

end PageMeta.Tree
