import Mathlib.Data.List.Basic
import PageMeta.Proofs.Tree.Merge
import PageMeta.Proofs.Tree.Normal

/-!
# Writing a tree over another

Merging goes through the entries of a level in order.  If two of them have one key, the second meets
what the first has left behind: two maps are merged with each other.  A copy is different, it keeps
the last of them.  So it makes a difference whether a map is copied or merged, and merging it a
second time can change what merging it once has given.

## Key results

- `overlay_of_distinct`: if no key comes twice, it is the deep merge
- `overlay_overlay`: if no key has two maps, a second time changes nothing
- `deepMerge_deepMerge`: merging a tree with a merge into it gives the merge
-/

namespace PageMeta

namespace Entries

variable {κ α : Type} [BEq κ] [LawfulBEq κ]

/-- Entries with different keys are told by their keys and what stands under them. -/
theorem ext_get? {first second : Entries κ α} (hn : (keys first).Nodup)
    (hkeys : keys first = keys second) (hget : ∀ key, get? key first = get? key second) :
    first = second := by
  induction first generalizing second with
  | nil => cases second <;> first | rfl | cases hkeys
  | cons p rest ih =>
    cases second with
    | nil => cases hkeys
    | cons q rest' =>
      obtain ⟨k, v⟩ := p
      obtain ⟨k', w⟩ := q
      simp only [keys, List.map_cons, List.cons.injEq, List.nodup_cons] at hkeys hn
      obtain ⟨rfl, hrest⟩ := hkeys
      have hvalue := hget k
      simp only [get?, beq_self_eq_true, if_true, Option.some.injEq] at hvalue
      subst hvalue
      -- the key of the first entry comes in neither rest, where it would give nothing
      refine congrArg _ (ih hn.2 hrest fun key => ?_)
      by_cases hk : (k == key) = true
      · have heq := eq_of_beq hk
        subst heq
        have hn' : k ∉ keys rest' := fun hm => hn.1 (by rw [hrest]; exact hm)
        rw [get?_eq_none_of_not_mem hn.1, get?_eq_none_of_not_mem hn']
      · simpa only [get?, hk, Bool.false_eq_true, if_false] using hget key

/-- A write under a key that is there leaves the keys alone. -/
theorem keys_put_of_mem {key : κ} {entries : Entries κ α} (v : α) (hk : key ∈ keys entries) :
    keys (put key v entries) = keys entries := by
  rw [keys_put, if_pos (has_iff_mem.mpr hk)]

/-- The keys of a write depend on the keys before. -/
theorem keys_put_congr {first second : Entries κ α} (key : κ) (v w : α)
    (hkeys : keys first = keys second) : keys (put key v first) = keys (put key w second) := by
  have hhas : has key first = has key second := by
    rw [Bool.eq_iff_iff, has_iff_mem, has_iff_mem, hkeys]
  rw [keys_put, keys_put, hhas, hkeys]

theorem mem_keys_put (key : κ) (v : α) (entries : Entries κ α) : key ∈ keys (put key v entries) :=
  has_iff_mem.mp (by rw [has, get?_put_self]; rfl)

omit [LawfulBEq κ] in
theorem mem_keys_put_of_mem {key other : κ} (v : α) {entries : Entries κ α}
    (hk : other ∈ keys entries) : other ∈ keys (put key v entries) := by
  rw [keys_put]
  split
  · exact hk
  · exact List.mem_append_left _ hk

end Entries

namespace Tree

mutual

/-- Writes a tree over another: maps entry by entry, one after the other, and anything else is
replaced. -/
def overlay : Tree String → Tree String → Tree String
  | .map old, .map new => .map (overlayEntries old new)
  | _, u => norm u

/-- Writes entries over others, one after the other. -/
def overlayEntries : Entries String (Tree String) → List (String × Tree String) →
    Entries String (Tree String)
  | old, [] => old
  | old, (key, u) :: rest =>
    overlayEntries (Entries.put key (match Entries.get? key old with
      | some t => overlay t u
      | none => norm u) old) rest

end

/-- What is written over what may be there. -/
def overlayOn (old : Option (Tree String)) (u : Tree String) : Tree String :=
  match old with
  | some t => overlay t u
  | none => norm u

/-- Two entries of one key: the second is merged into the first, which a copy forgets. -/
example : overlayEntries [] [("a", .map [("b", .map [])]), ("a", .map [("c", .map [])])] =
    [("a", .map [("b", .map []), ("c", .map [])])] := rfl

variable {t u : Tree String} {key : String} {old new : Entries String (Tree String)}

theorem overlayEntries_cons (old : Entries String (Tree String)) (key : String) (u : Tree String)
    (rest : List (String × Tree String)) : overlayEntries old ((key, u) :: rest) =
      overlayEntries (Entries.put key (overlayOn (Entries.get? key old) u) old) rest := by
  rw [overlayEntries]
  rfl

theorem overlay_map (old new : Entries String (Tree String)) :
    overlay (.map old) (.map new) = .map (overlayEntries old new) := by rw [overlay]

/-- Unless both sides are maps, the new side replaces the old one. -/
theorem overlay_of_not_map (h : (t.isMap && u.isMap) = false) : overlay t u = norm u := by
  cases t <;> cases u <;> first | rfl | simp [isMap] at h

theorem overlayOn_of_not_map {o : Option (Tree String)}
    (h : ∀ t, o = some t → (t.isMap && u.isMap) = false) : overlayOn o u = norm u := by
  cases o with
  | none => rfl
  | some t => exact overlay_of_not_map (h t rfl)

@[simp] theorem isMap_norm (t : Tree String) : t.norm.isMap = t.isMap := by
  cases t <;> rfl

/-! ### Keys are not repeated -/

theorem mem_keys_overlayEntries {k : String} {new : List (String × Tree String)} :
    ∀ {old : Entries String (Tree String)}, k ∈ Entries.keys old ∨ k ∈ Entries.keys new →
      k ∈ Entries.keys (overlayEntries old new) := by
  induction new with
  | nil => exact fun hk => by rw [overlayEntries]; exact hk.resolve_right List.not_mem_nil
  | cons p rest ih =>
    obtain ⟨key, u⟩ := p
    intro old hk
    rw [overlayEntries_cons]
    refine ih ?_
    rcases hk with hk | hk
    · exact .inl (Entries.mem_keys_put_of_mem _ hk)
    · rcases List.mem_cons.mp hk with rfl | hk
      · exact .inl (Entries.mem_keys_put _ _ _)
      · exact .inr hk

/-- Entries that are all there leave the keys alone. -/
theorem keys_overlayEntries_of_subset {new : List (String × Tree String)} :
    ∀ {old : Entries String (Tree String)}, (∀ k ∈ Entries.keys new, k ∈ Entries.keys old) →
      Entries.keys (overlayEntries old new) = Entries.keys old := by
  induction new with
  | nil => intro old _; rw [overlayEntries]
  | cons p rest ih =>
    obtain ⟨key, u⟩ := p
    intro old hk
    obtain ⟨hkey, hrest⟩ := List.forall_mem_cons.mp hk
    have hput := Entries.keys_put_of_mem (overlayOn (Entries.get? key old) u) hkey
    rw [overlayEntries_cons, ih fun k hr => by rw [hput]; exact hrest k hr, hput]

mutual

/-- What is written over a tree with each key once at every level has each key once. -/
theorem distinct_overlay : ∀ {u t : Tree String}, t.Distinct → (overlay t u).Distinct
  | .map new, .map old, ht => by
    rw [overlay_map]
    exact ⟨nodup_overlayEntries ht.1, distinct_overlayEntries ht.2⟩
  | .leaf _, _, _ => by rw [overlay_of_not_map (by simp [isMap])]; exact distinct_norm _
  | .list _, _, _ => by rw [overlay_of_not_map (by simp [isMap])]; exact distinct_norm _
  | .map _, .leaf _, _ => by rw [overlay_of_not_map rfl]; exact distinct_norm _
  | .map _, .list _, _ => by rw [overlay_of_not_map rfl]; exact distinct_norm _

/-- `distinct_overlay` for the keys of one level. -/
theorem nodup_overlayEntries : ∀ {new old : List (String × Tree String)},
    (Entries.keys old).Nodup → (Entries.keys (overlayEntries old new)).Nodup
  | [], _, ho => by rw [overlayEntries]; exact ho
  | (key, u) :: rest, old, ho => by
    rw [overlayEntries_cons]
    exact nodup_overlayEntries (Entries.nodup_keys_put key _ ho)

/-- `distinct_overlay` for the values of one level. -/
theorem distinct_overlayEntries : ∀ {new old : List (String × Tree String)},
    DistinctEntries old → DistinctEntries (overlayEntries old new)
  | [], _, ho => by rw [overlayEntries]; exact ho
  | (key, u) :: rest, old, ho => by
    rw [overlayEntries_cons]
    have hall := distinctEntries_iff.mp ho
    refine distinct_overlayEntries (distinctEntries_iff.mpr (forall_put ?_ hall))
    cases hg : Entries.get? key old with
    | none => exact distinct_norm u
    | some t => exact distinct_overlay (hall _ (Entries.mem_of_get? hg))

end

/-- A key that is not merged has its old value. -/
theorem get?_mergeEntries {old new : List (String × Tree String)}
    (hnew : key ∉ Entries.keys new) :
    Entries.get? key (mergeEntries old new) = Entries.get? key old := by
  have hold : Entries.get? key (mergeOld old new) = Entries.get? key old := by
    induction old with
    | nil => rfl
    | cons p rest ih =>
      obtain ⟨k, t⟩ := p
      rw [mergeOld, Entries.get?, Entries.get?, ih]
      split
      · rename_i hk
        have heq := eq_of_beq hk
        subst heq
        rw [Entries.get?_eq_none_of_not_mem hnew]
      · rfl
  have hfilter : Entries.get? key (new.filter fun p => !Entries.has p.1 old) = none := by
    refine Entries.get?_eq_none_of_not_mem fun hm => hnew ?_
    obtain ⟨p, hp, rfl⟩ := List.mem_map.mp hm
    exact List.mem_map_of_mem (List.mem_filter.mp hp).1
  rw [mergeEntries, Entries.get?_append, hold, hfilter, Option.or_none]

mutual

/-- If no key comes twice, writing a tree over another is the deep merge. -/
theorem overlay_of_distinct : ∀ {u t : Tree String}, t.Distinct → u.Distinct →
    overlay t u = t.deepMerge u
  | .map new, .map old, ht, hu => by
    rw [overlay_map, deepMerge_map]
    -- the merge of no entries is what was there, from where the induction over the new entries starts
    have hall : overlayEntries (mergeEntries old []) new = mergeEntries old ([] ++ new) :=
      overlayEntries_of_distinct ht.1 ht.2 hu.1 hu.2
    rw [mergeEntries_nil, List.nil_append] at hall
    rw [hall]
  | .leaf _, _, _, hu => by
    rw [overlay_of_not_map (by simp [isMap]), deepMerge_of_not_map (by simp [isMap]),
      norm_of_distinct hu]
  | .list _, _, _, hu => by
    rw [overlay_of_not_map (by simp [isMap]), deepMerge_of_not_map (by simp [isMap]),
      norm_of_distinct hu]
  | .map _, .leaf _, _, hu => by
    rw [overlay_of_not_map rfl, deepMerge_of_not_map rfl, norm_of_distinct hu]
  | .map _, .list _, _, hu => by
    rw [overlay_of_not_map rfl, deepMerge_of_not_map rfl, norm_of_distinct hu]

/-- The rest of the entries is written over the merge of those before. -/
theorem overlayEntries_of_distinct : ∀ {rest done old : List (String × Tree String)},
    (Entries.keys old).Nodup → DistinctEntries old → (Entries.keys (done ++ rest)).Nodup →
      DistinctEntries rest →
      overlayEntries (mergeEntries old done) rest = mergeEntries old (done ++ rest)
  | [], done, old, _, _, _, _ => by rw [overlayEntries, List.append_nil]
  | (key, u) :: rest, done, old, ho, hold, hn, hd => by
    -- the key is not among those done, so what it is written over is the old value, merged with nothing
    have hnew : key ∉ Entries.keys done := by
      simp only [Entries.keys, List.map_append, List.map_cons] at hn
      exact fun hm => (List.nodup_append.mp hn).2.2 key hm key List.mem_cons_self rfl
    have hat : overlayOn (Entries.get? key (mergeEntries old done)) u = mergeAt old key u := by
      rw [get?_mergeEntries hnew, mergeAt]
      cases hg : Entries.get? key old with
      | none => exact norm_of_distinct hd.1
      | some t =>
        exact overlay_of_distinct (distinctEntries_iff.mp hold _ (Entries.mem_of_get? hg)) hd.1
    have hsplit : done ++ (key, u) :: rest = done ++ [(key, u)] ++ rest := by simp
    rw [overlayEntries_cons, hat, ← mergeEntries_concat u ho hnew, hsplit,
      overlayEntries_of_distinct ho hold (by rwa [← hsplit]) hd.2]

end

/-! ### A second time -/

mutual

/-- Whether no key of a level has two maps. -/
def SingleMaps : Tree String → Prop
  | .leaf _ | .list _ => True
  | .map entries =>
    entries.Pairwise (fun p q => p.1 = q.1 → (p.2.isMap && q.2.isMap) = false) ∧
      SingleMapsEntries entries

/-- `SingleMaps` for the value of every entry. -/
def SingleMapsEntries : List (String × Tree String) → Prop
  | [] => True
  | (_, t) :: rest => SingleMaps t ∧ SingleMapsEntries rest

end

mutual

/-- If no two keys of a level are the same, no key has two maps. -/
theorem singleMaps_of_distinct : ∀ {u : Tree String}, u.Distinct → u.SingleMaps
  | .leaf _, _ => trivial
  | .list _, _ => trivial
  | .map _, ⟨hn, hd⟩ => ⟨(List.pairwise_map.mp hn).imp fun hne heq => absurd heq hne,
      singleMapsEntries_of_distinct hd⟩

/-- `singleMaps_of_distinct`, entry by entry. -/
theorem singleMapsEntries_of_distinct : ∀ {entries : List (String × Tree String)},
    DistinctEntries entries → SingleMapsEntries entries
  | [], _ => trivial
  | (_, _) :: _, ⟨hu, hrest⟩ => ⟨singleMaps_of_distinct hu, singleMapsEntries_of_distinct hrest⟩

end

/-- What entries have under a key, in order. -/
def valuesAt (key : String) (entries : List (String × Tree String)) : List (Tree String) :=
  (entries.filter fun p => p.1 == key).map Prod.snd

/-- Writes trees over what may be there, one after the other. -/
def overlayAll (old : Option (Tree String)) (us : List (Tree String)) : Option (Tree String) :=
  us.foldl (fun o u => some (overlayOn o u)) old

theorem mem_of_mem_valuesAt {entries : List (String × Tree String)} (hu : u ∈ valuesAt key entries) :
    (key, u) ∈ entries := by
  obtain ⟨p, hp, rfl⟩ := List.mem_map.mp hu
  obtain ⟨hmem, hk⟩ := List.mem_filter.mp hp
  rw [← eq_of_beq hk]
  exact hmem

/-- Under one key there is at most one map. -/
theorem pairwise_valuesAt {entries : List (String × Tree String)}
    (hp : entries.Pairwise fun p q => p.1 = q.1 → (p.2.isMap && q.2.isMap) = false) :
    (valuesAt key entries).Pairwise fun t u => (t.isMap && u.isMap) = false := by
  refine List.pairwise_map.mpr ((hp.filter _).imp_of_mem fun {p q} hp hq hpq => hpq ?_)
  rw [eq_of_beq (List.mem_filter.mp hp).2, eq_of_beq (List.mem_filter.mp hq).2]

/-- What stands under a key afterwards is what its values have made of what was there. -/
theorem get?_overlayEntries : ∀ {new old : List (String × Tree String)},
    Entries.get? key (overlayEntries old new) =
      overlayAll (Entries.get? key old) (valuesAt key new)
  | [], old => by rw [overlayEntries]; rfl
  | (k, u) :: rest, old => by
    rw [overlayEntries_cons, get?_overlayEntries]
    by_cases hk : (k == key) = true
    · have heq := eq_of_beq hk
      subst heq
      rw [Entries.get?_put_self]
      simp [valuesAt, overlayAll]
    · have hk' : (k == key) = false := Bool.eq_false_iff.mpr hk
      rw [Entries.get?_put_of_ne _ _ hk']
      simp [valuesAt, hk']

/-- After another value, of the two only one a map, the last value replaces what was there. -/
theorem overlayAll_concat {us : List (Tree String)} (o : Option (Tree String))
    (hp : (us ++ [u]).Pairwise fun t u => (t.isMap && u.isMap) = false) (hne : us ≠ []) :
    overlayAll o (us ++ [u]) = some (norm u) := by
  rcases List.eq_nil_or_concat' us with rfl | ⟨init, w, rfl⟩
  · exact absurd rfl hne
  -- only the value before matters: it has replaced or merged into whatever came first, and the two are
  -- not both maps
  have hwu : (w.isMap && u.isMap) = false := by
    simp only [List.append_assoc, List.pairwise_append, List.singleton_append] at hp
    exact (List.pairwise_cons.mp hp.2.1).1 u (List.mem_singleton_self u)
  simp only [overlayAll, List.foldl_append, List.foldl_cons, List.foldl_nil, Option.some.injEq]
  generalize init.foldl (fun o u => some (overlayOn o u)) o = before
  refine overlayOn_of_not_map fun t ht => ?_
  cases ht
  cases hu : u.isMap with
  | false => exact Bool.and_false _
  | true =>
    rw [hu, Bool.and_true] at hwu
    rw [overlayOn_of_not_map fun s _ => by rw [hwu, Bool.and_false], isMap_norm, hwu]
    rfl

/-- A second time, what is written over what is there is there, if that is so of every single
value. -/
theorem overlayAll_overlayAll {us : List (Tree String)} {o : Option (Tree String)}
    (hp : us.Pairwise fun t u => (t.isMap && u.isMap) = false)
    (hself : ∀ u ∈ us, overlayOn (some (overlayOn o u)) u = overlayOn o u) :
    overlayAll (overlayAll o us) us = overlayAll o us := by
  rcases List.eq_nil_or_concat' us with rfl | ⟨init, u, rfl⟩
  · rfl
  -- a single value is written over itself; of several the last one replaces what the others made
  by_cases hne : init = []
  · subst hne
    exact congrArg some (hself u (List.mem_singleton_self u))
  · rw [overlayAll_concat o hp hne, overlayAll_concat _ hp hne]

/-- A normal form is what is written over no entries. -/
theorem norm_eq_overlay (hu : u.SingleMaps) : norm u = overlay (.map []) u := by
  cases u with
  | leaf v => rfl
  | list us => rfl
  | map new =>
    rw [overlay_map, norm, Entries.ofList]
    -- entries in one order are equal if the keys are and every key has one value in both
    refine congrArg _ (Entries.ext_get? (Entries.nodup_keys_putAll _ List.nodup_nil)
      (keys_putAll_norm rfl) fun key => ?_)
    have hp : (valuesAt key new).Pairwise fun t u => (t.isMap && u.isMap) = false :=
      pairwise_valuesAt hu.1
    rw [get?_putAll_norm, get?_overlayEntries]
    rcases List.eq_nil_or_concat' (valuesAt key new) with hnil | ⟨init, u, hinit⟩
    · rw [hnil]
      rfl
    · rw [hinit] at hp ⊢
      by_cases hne : init = []
      · subst hne
        rfl
      · rw [overlayAll_concat _ hp hne, List.foldl_concat]
where
  /-- Copying and merging give the same keys. -/
  keys_putAll_norm : ∀ {new : List (String × Tree String)} {first second : List (String × Tree String)},
      Entries.keys first = Entries.keys second →
      Entries.keys (Entries.putAll first (normEntries new)) =
        Entries.keys (overlayEntries second new)
    | [], _, _, hkeys => by rw [overlayEntries]; exact hkeys
    | (key, u) :: rest, first, second, hkeys => by
      show Entries.keys (Entries.putAll (Entries.put key (norm u) first) (normEntries rest)) = _
      rw [overlayEntries_cons]
      have hput := Entries.keys_put_congr key (norm u) (overlayOn (Entries.get? key second) u) hkeys
      exact keys_putAll_norm hput
  /-- A copy keeps the last value of a key. -/
  get?_putAll_norm {key : String} : ∀ {new old : List (String × Tree String)},
      Entries.get? key (Entries.putAll old (normEntries new)) =
        (valuesAt key new).foldl (fun _ u => some (norm u)) (Entries.get? key old)
    | [], _ => rfl
    | (k, u) :: rest, old => by
      have hstep : Entries.putAll old (normEntries ((k, u) :: rest)) =
          Entries.putAll (Entries.put k (norm u) old) (normEntries rest) := rfl
      rw [hstep, get?_putAll_norm]
      by_cases hk : (k == key) = true
      · have heq := eq_of_beq hk
        subst heq
        rw [Entries.get?_put_self]
        simp [valuesAt]
      · have hk' : (k == key) = false := Bool.eq_false_iff.mpr hk
        rw [Entries.get?_put_of_ne _ _ hk']
        simp [valuesAt, hk']

/-- Writing entries over others a second time changes nothing if that is so of every value. -/
theorem overlayEntries_overlayEntries (ho : (Entries.keys old).Nodup) (hu : (Tree.map new).SingleMaps)
    (hself : ∀ p ∈ new, overlayOn (some (overlayOn (Entries.get? p.1 old) p.2)) p.2 =
      overlayOn (Entries.get? p.1 old) p.2) :
    overlayEntries (overlayEntries old new) new = overlayEntries old new := by
  have hkeys : Entries.keys (overlayEntries (overlayEntries old new) new) =
      Entries.keys (overlayEntries old new) :=
    keys_overlayEntries_of_subset fun k hk => mem_keys_overlayEntries (.inr hk)
  -- all keys are there after the first time, so the second keeps their order
  refine Entries.ext_get? (nodup_overlayEntries (nodup_overlayEntries ho)) hkeys fun key => ?_
  rw [get?_overlayEntries, get?_overlayEntries]
  exact overlayAll_overlayAll (pairwise_valuesAt hu.1) fun u hm =>
    hself (key, u) (mem_of_mem_valuesAt hm)

/-- Writing entries over their own copy changes nothing if that is so of every value. -/
theorem overlay_norm (hu : (Tree.map new).SingleMaps)
    (hself : ∀ p ∈ new, overlayOn (some (overlayOn none p.2)) p.2 = overlayOn none p.2) :
    overlay (norm (.map new)) (.map new) = norm (.map new) := by
  have hnil : (Entries.keys ([] : Entries String (Tree String))).Nodup := List.nodup_nil
  rw [norm_eq_overlay hu, overlay_map, overlay_map, overlayEntries_overlayEntries hnil hu hself]

mutual

/-- If no key has two maps, writing a tree over another a second time changes nothing. -/
theorem overlay_overlay : ∀ {u t : Tree String}, t.Distinct → u.SingleMaps →
    overlay (overlay t u) u = overlay t u
  | .leaf _, t, _, _ => by
    rw [overlay_of_not_map (by simp [isMap]), overlay_of_not_map (by simp [isMap])]
  | .list _, t, _, _ => by
    rw [overlay_of_not_map (by simp [isMap]), overlay_of_not_map (by simp [isMap])]
  | .map new, .map old, ht, hu => by
    rw [overlay_map, overlay_map, overlayEntries_overlayEntries ht.1 hu fun p hp =>
      overlayOn_overlayOn hu.2 p hp fun t hg =>
        distinctEntries_iff.mp ht.2 _ (Entries.mem_of_get? hg)]
  | .map new, .leaf v, _, hu => by
    rw [overlay_of_not_map (t := .leaf v) rfl, overlay_norm hu fun p hp =>
      overlayOn_overlayOn hu.2 p hp fun t hg => by cases hg]
  | .map new, .list us, _, hu => by
    rw [overlay_of_not_map (t := .list us) rfl, overlay_norm hu fun p hp =>
      overlayOn_overlayOn hu.2 p hp fun t hg => by cases hg]

/-- `overlay_overlay` for every value of a level, over what may be there. -/
theorem overlayOn_overlayOn : ∀ {new : List (String × Tree String)}, SingleMapsEntries new →
    ∀ p ∈ new, ∀ {o : Option (Tree String)}, (∀ t, o = some t → t.Distinct) →
      overlayOn (some (overlayOn o p.2)) p.2 = overlayOn o p.2
  | [], _, _, hp, _, _ => absurd hp List.not_mem_nil
  | (_, u) :: rest, hu, p, hp, o, ho => by
    rcases List.mem_cons.mp hp with rfl | hp
    · -- where nothing was there, the copy is what is written over no entries
      cases o with
      | some t => exact overlay_overlay (ho t rfl) hu.1
      | none =>
        have hempty : (Tree.map []).Distinct := ⟨List.nodup_nil, trivial⟩
        rw [overlayOn, overlayOn, norm_eq_overlay hu.1]
        exact overlay_overlay hempty hu.1
    · exact overlayOn_overlayOn hu.2 p hp ho

end

/-! ### Merging a merge -/

/-- The value of an old entry in a merge. -/
def mergedValue (new : Entries String (Tree String)) (key : String) (t : Tree String) :
    Tree String :=
  match Entries.get? key new with
  | some u => deepMerge t u
  | none => t

theorem get?_mergeOld (old : List (String × Tree String)) (new : Entries String (Tree String))
    (key : String) : Entries.get? key (mergeOld old new) =
      (Entries.get? key old).map (mergedValue new key) := by
  induction old with
  | nil => rfl
  | cons p rest ih =>
    obtain ⟨k, t⟩ := p
    rw [mergeOld, Entries.get?, Entries.get?, ih]
    split
    · rename_i hk
      rw [eq_of_beq hk]
      rfl
    · rfl

/-- An old entry is found in a merge with the value that it has there. -/
theorem get?_mergeEntries_of_mem (hn : (Entries.keys old).Nodup) {p : String × Tree String}
    (hp : p ∈ old) :
    Entries.get? p.1 (mergeEntries old new) = some (mergedValue new p.1 p.2) := by
  rw [mergeEntries, Entries.get?_append, get?_mergeOld, Entries.get?_of_mem hn hp]
  rfl

/-- What is new in a merge is what was new. -/
theorem filter_mergeEntries : ((mergeEntries old new).filter fun p => !Entries.has p.1 old) =
    new.filter fun p => !Entries.has p.1 old := by
  have hold : ((mergeOld old new).filter fun p => !Entries.has p.1 old) = [] := by
    refine List.filter_eq_nil_iff.mpr fun p hp => ?_
    have hkey : p.1 ∈ Entries.keys (mergeOld old new) := List.mem_map_of_mem hp
    rw [keys_mergeOld] at hkey
    rw [Entries.has_iff_mem.mpr hkey]
    exact Bool.false_ne_true
  rw [mergeEntries, List.filter_append, hold, List.nil_append, List.filter_filter]
  simp only [Bool.and_self]

mutual

/-- Merging a tree with itself gives the tree. -/
theorem deepMerge_self : ∀ {t : Tree String}, t.Distinct → t.deepMerge t = t
  | .leaf _, _ => rfl
  | .list _, _ => rfl
  | .map old, ⟨hn, hd⟩ => by
    -- nothing of the tree is new to itself, and every entry meets itself
    have hnew : (old.filter fun p => !Entries.has p.1 old) = [] :=
      List.filter_eq_nil_iff.mpr fun p hp => by
        rw [Entries.has_iff_mem.mpr (List.mem_map_of_mem hp)]
        exact Bool.false_ne_true
    rw [deepMerge_map, mergeEntries, hnew, List.append_nil,
      mergeOld_self hd fun p hp => Entries.get?_of_mem hn hp]

/-- Old entries that are all found again are merged with themselves. -/
theorem mergeOld_self : ∀ {old : List (String × Tree String)} {new : Entries String (Tree String)},
    DistinctEntries old → (∀ p ∈ old, Entries.get? p.1 new = some p.2) → mergeOld old new = old
  | [], _, _, _ => rfl
  | (_, _) :: _, _, ⟨hd, hrest⟩, hget => by
    obtain ⟨hhead, htail⟩ := List.forall_mem_cons.mp hget
    rw [mergeOld, hhead, mergeOld_self hrest htail]
    dsimp only
    rw [deepMerge_self hd]

end

mutual

/-- Merging a tree with a merge into it gives the merge, in the same order. -/
theorem deepMerge_deepMerge : ∀ {t u : Tree String}, t.Distinct → u.Distinct →
    t.deepMerge (t.deepMerge u) = t.deepMerge u
  | .leaf _, _, _, _ => rfl
  | .list _, _, _, _ => rfl
  | .map _, .leaf _, _, _ => rfl
  | .map _, .list _, _, _ => rfl
  | .map old, .map new, ⟨hn, ht⟩, ⟨_, hu⟩ => by
    rw [deepMerge_map, deepMerge_map, mergeEntries, filter_mergeEntries,
      mergeOld_merged ht hu fun p hp => get?_mergeEntries_of_mem hn hp]
    rfl

/-- Old entries that are all found merged are merged as before. -/
theorem mergeOld_merged : ∀ {old : List (String × Tree String)}
    {new merged : Entries String (Tree String)}, DistinctEntries old → DistinctEntries new →
    (∀ p ∈ old, Entries.get? p.1 merged = some (mergedValue new p.1 p.2)) →
    mergeOld old merged = mergeOld old new
  | [], _, _, _, _, _ => rfl
  | (key, t) :: rest, new, merged, ⟨hd, hrest⟩, hnew, hget => by
    obtain ⟨hhead, htail⟩ := List.forall_mem_cons.mp hget
    rw [mergeOld, mergeOld, hhead, mergeOld_merged hrest hnew htail]
    dsimp only [mergedValue]
    cases hg : Entries.get? key new with
    | none => dsimp only; rw [deepMerge_self hd]
    | some u =>
      dsimp only
      rw [deepMerge_deepMerge hd (distinctEntries_iff.mp hnew _ (Entries.mem_of_get? hg))]

end

end Tree

end PageMeta
