import PageMeta.Proofs.Tree.Overlay

/-!
# Trees in layers

A configuration comes in layers, each merged over those before.  What a key has afterwards depends
on what the layers have under it and on nothing else, so laws of merging are shown for one key, and
the order of the keys apart from that.

Merging is not associative: a value between two maps replaces the first of them if it is merged into
it, and is itself replaced by the second if that is merged first.

## Key results

- `get?_mergeEntries_eq`: merging is done key by key
- `deepMerge_assoc`: merging is associative where no value stands between two maps
-/

namespace PageMeta.Tree

variable {t u w : Tree String} {ts us ws : Entries String (Tree String)} {key : String}

/-! ### Paths -/

/-- What stands under a path of keys. -/
def at? : Tree String → List String → Option (Tree String)
  | t, [] => some t
  | .map entries, key :: way => (Entries.get? key entries).bind fun t => t.at? way
  | _, _ :: _ => none

@[simp] theorem at?_nil (t : Tree String) : t.at? [] = some t := by cases t <;> rfl

theorem at?_cons (hk : Entries.get? key ts = some t) (way : List String) :
    (Tree.map ts).at? (key :: way) = t.at? way := by
  rw [at?, hk, Option.bind_some]

/-- Whether at every path where two trees have a map, a third between them has one if it has
anything. -/
def Bridges (u t w : Tree String) : Prop :=
  ∀ way t' u' w', t.at? way = some t' → u.at? way = some u' → w.at? way = some w' →
    t'.isMap = true → w'.isMap = true → u'.isMap = true

/-- Maps are bridged if what stands under each key is. -/
theorem bridges_map_iff : Bridges (.map us) (.map ts) (.map ws) ↔
    ∀ key t u w, Entries.get? key ts = some t → Entries.get? key us = some u →
      Entries.get? key ws = some w → Bridges u t w := by
  constructor
  · intro hb key t u w ht hu hw way t' u' w' ht' hu' hw'
    exact hb (key :: way) t' u' w' (by rwa [at?_cons ht]) (by rwa [at?_cons hu])
      (by rwa [at?_cons hw])
  · intro hb way t' u' w' ht' hu' hw'
    cases way with
    | nil =>
      rw [at?_nil] at hu'
      cases hu'
      exact fun _ _ => rfl
    | cons key way =>
      obtain ⟨t, ht, ht'⟩ := Option.bind_eq_some_iff.mp ht'
      obtain ⟨u, hu, hu'⟩ := Option.bind_eq_some_iff.mp hu'
      obtain ⟨w, hw, hw'⟩ := Option.bind_eq_some_iff.mp hw'
      exact hb key t u w ht hu hw way t' u' w' ht' hu' hw'

/-! ### One key -/

/-- What a key has after a merge. -/
def mergeOn : Option (Tree String) → Option (Tree String) → Option (Tree String)
  | some t, some u => some (t.deepMerge u)
  | none, o => o
  | o, none => o

@[simp] theorem mergeOn_none_left (o : Option (Tree String)) : mergeOn none o = o := by
  cases o <;> rfl

@[simp] theorem mergeOn_none_right (o : Option (Tree String)) : mergeOn o none = o := by
  cases o <;> rfl

@[simp] theorem mergeOn_some (t u : Tree String) : mergeOn (some t) (some u) = some (t.deepMerge u) :=
  rfl

/-- New entries are found unless there are old ones of the key. -/
theorem get?_filter_has (key : String) (old new : Entries String (Tree String)) :
    Entries.get? key (new.filter fun p => !Entries.has p.1 old) =
      if Entries.has key old then none else Entries.get? key new := by
  induction new with
  | nil => simp
  | cons p rest ih =>
    obtain ⟨k, v⟩ := p
    by_cases hk : (k == key) = true
    · have heq := eq_of_beq hk
      subst heq
      cases hold : Entries.has k old with
      | true => simp [hold, ih]
      | false => simp [hold, Entries.get?]
    · cases hold : Entries.has k old <;> simp [hold, ih, Entries.get?, hk]

/-- A merge is done key by key. -/
theorem get?_mergeEntries_eq (key : String) (old new : Entries String (Tree String)) :
    Entries.get? key (mergeEntries old new) =
      mergeOn (Entries.get? key old) (Entries.get? key new) := by
  rw [mergeEntries, Entries.get?_append, get?_mergeOld, get?_filter_has, Entries.has]
  cases Entries.get? key old with
  | none => simp
  | some t => cases h : Entries.get? key new <;> simp [mergedValue, h]

/-! ### Three layers -/

/-- Merging is associative if it is for maps, unless only the middle one is no map. -/
theorem deepMerge_assoc_of_not_maps (hb : t.isMap = true → w.isMap = true → u.isMap = true)
    (hn : (t.isMap && u.isMap && w.isMap) = false) :
    (t.deepMerge u).deepMerge w = t.deepMerge (u.deepMerge w) := by
  cases hw : w.isMap with
  | false =>
    -- the last layer replaces everything
    have hlast : ∀ t : Tree String, t.deepMerge w = w := fun t =>
      deepMerge_of_not_map (by rw [hw, Bool.and_false])
    rw [hlast, hlast, hlast]
  | true =>
    cases ht : t.isMap with
    | false =>
      -- nothing is left of the first layer
      have hfirst : ∀ u : Tree String, t.deepMerge u = u := fun u =>
        deepMerge_of_not_map (by rw [ht, Bool.false_and])
      rw [hfirst, hfirst]
    | true => rw [ht, hb ht hw, hw] at hn; cases hn

/-- The keys of three layers, in the order in which they come first. -/
theorem keys_mergeEntries_assoc (ts us ws : Entries String (Tree String)) :
    Entries.keys (mergeEntries (mergeEntries ts us) ws) =
      Entries.keys (mergeEntries ts (mergeEntries us ws)) := by
  have hhas : ∀ key, Entries.has key (mergeEntries ts us) =
      (Entries.has key ts || Entries.has key us) := by
    intro key
    simp only [Entries.has, get?_mergeEntries_eq]
    cases Entries.get? key ts <;> cases Entries.get? key us <;> rfl
  simp only [keys_mergeEntries, hhas, List.filter_append, List.append_assoc, List.filter_filter,
    Bool.not_or]

/-- Merging is associative where no value stands between two maps, with all keys in one order. -/
theorem deepMerge_assoc (ht : t.Distinct) (hu : u.Distinct) (hw : w.Distinct) (hb : Bridges u t w) :
    (t.deepMerge u).deepMerge w = t.deepMerge (u.deepMerge w) := by
  -- the keys are looked up, so the induction is on the height and not on the entries
  induction hn : t.height using Nat.strongRecOn generalizing t u w with
  | ind n ih =>
    by_cases hmaps : (t.isMap && u.isMap && w.isMap) = true
    · obtain ⟨⟨ts, rfl⟩, ⟨us, rfl⟩, ws, rfl⟩ :
          (∃ ts, t = .map ts) ∧ (∃ us, u = .map us) ∧ ∃ ws, w = .map ws := by
        cases t <;> cases u <;> cases w <;> simp [isMap] at hmaps ⊢
      simp only [deepMerge_map]
      refine congrArg _ (Entries.ext_get?
        (nodup_keys_mergeEntries (nodup_keys_mergeEntries ht.1 hu.1) hw.1)
        (keys_mergeEntries_assoc ts us ws) fun key => ?_)
      simp only [get?_mergeEntries_eq]
      -- only where all three have the key is there something to show
      cases hkt : Entries.get? key ts with
      | none => simp
      | some t' =>
        cases hku : Entries.get? key us with
        | none => simp
        | some u' =>
          cases hkw : Entries.get? key ws with
          | none => simp
          | some w' =>
            have hmt := Entries.mem_of_get? hkt
            have hlower : t'.height < n := by
              rw [← hn, height]
              exact Nat.lt_succ_of_le (height_le_heightEntries hmt)
            exact congrArg some (ih _ hlower (distinctEntries_iff.mp ht.2 _ hmt)
              (distinctEntries_iff.mp hu.2 _ (Entries.mem_of_get? hku))
              (distinctEntries_iff.mp hw.2 _ (Entries.mem_of_get? hkw)) (bridges_map_iff.mp hb key _ _ _ hkt hku hkw) rfl)
    · exact deepMerge_assoc_of_not_maps (hb [] t u w (at?_nil t) (at?_nil u) (at?_nil w))
        (Bool.eq_false_iff.mpr hmaps)

/-- A number between two maps: it replaces the first map, or is itself replaced by the second. -/
example : ((Tree.map [("a", .map [("b", .leaf .none)])]).deepMerge (.map [("a", .leaf .none)])).deepMerge
      (.map [("a", .map [])]) = .map [("a", .map [])] ∧
    (Tree.map [("a", .map [("b", .leaf .none)])]).deepMerge ((Tree.map [("a", .leaf .none)]).deepMerge
      (.map [("a", .map [])])) = .map [("a", .map [("b", .leaf .none)])] := ⟨rfl, rfl⟩

end PageMeta.Tree
