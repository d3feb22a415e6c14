import PageMeta.Proofs.Tree.Leaves
import PageMeta.Proofs.Tree.Order

/-!
# Likeness of plain data

Plain data are compared key by key, and their scalars as numbers or as texts.  So trees that are
alike are alike to the same trees, and since only the keys decide where a merge goes on, it goes the
same way in both.

## Key results

- `Value.sameScalar_iff`: plain scalars are equal if they are compared by one value
- `alike_symm`, `alike_trans`: likeness is an equivalence
- `alike_of_reordered`: the order of keys does not matter at any depth
- `alike_deepMerge_congr`: merges of trees that are alike are alike
-/

namespace PageMeta

/-! ### Numbers -/

namespace Binary64

variable {x y : Binary64} {m n : Int}

theorem signed_mul (s : Bool) (k d : Nat) : signed s (k * d) = signed s k * d := by
  cases s with
  | false => rfl
  | true => exact (Int.neg_mul k d).symm

/-- A double that is an integer has so many units as that. -/
theorem exists_signed_of_toInt? (hx : x.toInt? = some n) :
    ∃ s units, x = .finite s units ∧ signed s units = n * unitsPerOne := by
  cases x with
  | finite s units =>
    rw [toInt?] at hx
    split at hx
    · rename_i hdvd
      refine ⟨s, units, rfl, ?_⟩
      rw [← Option.some.inj hx, ← signed_mul, Nat.div_mul_cancel (Nat.dvd_of_mod_eq_zero hdvd)]
    · cases hx
  | _ => cases hx

/-- Doubles that are integers are equal as numbers if the integers are. -/
theorem same_of_toInt? (hx : x.toInt? = some m) (hy : y.toInt? = some n) :
    x.same y = (m == n) := by
  cases heq : m == n with
  | true =>
    obtain ⟨s, i, rfl, hi⟩ := exists_signed_of_toInt? hx
    obtain ⟨t, j, rfl, hj⟩ := exists_signed_of_toInt? hy
    rw [same, hi, hj, eq_of_beq heq, beq_self_eq_true]
  | false =>
    by_contra hsame
    have hboth := toInt?_congr (Bool.not_eq_false _ ▸ hsame)
    rw [hx, hy, Option.some.injEq] at hboth
    exact absurd hboth (beq_eq_false_iff_ne.mp heq)

/-- Doubles that are no integers are equal as numbers only if they are one. -/
theorem eq_of_same_of_toInt? (hx : x.toInt? = none) (hsame : x.same y = true) : x = y := by
  rcases eq_or_zeros_of_same hsame with heq | ⟨s, t, rfl, rfl⟩
  · exact heq
  · simp [toInt?] at hx

end Binary64

/-! ### Scalars -/

namespace Value

/-- The value by which a plain scalar is compared: an integer whatever its type, or a text whichever
object it is.  Only a not-a-number is told from others of its kind. -/
def compared : Value → Value
  | .bool b => .ofInt (if b then 1 else 0)
  | .int n _ => .ofInt n
  | .real x mark =>
    match x.toInt? with
    | some n => .ofInt n
    | Option.none => .real x (if x = .nan then mark else .shared)
  | .text s _ => .ofText s
  | v => v

/-- One, as an integer, as a double and as a truth value. -/
example : (ofInt 1).compared = (Value.bool true).compared ∧
    (Value.real (Binary64.ofInt 1) (.made 0)).compared = (Value.bool true).compared := by
  decide +kernel

variable {v w : Value} {x y : Binary64}

/-- A double that is an integer is compared by that. -/
theorem compared_real_of_toInt? {n : Int} (hx : x.toInt? = some n) (mark : Mark) :
    (Value.real x mark).compared = .ofInt n := by
  rw [compared, hx]

theorem compared_real_of_none (hx : x.toInt? = Option.none) (mark : Mark) :
    (Value.real x mark).compared = .real x (if x = .nan then mark else .shared) := by
  rw [compared, hx]

/-- Doubles are equal as parts of a container if they are compared by one value. -/
theorem sameScalar_real_iff (k l : Mark) : (Value.real x k).sameScalar true (.real y l) = true ↔
    (Value.real x k).compared = (Value.real y l).compared := by
  -- numbers that are integers are compared as these, and others as themselves
  have hkind : x.same y = true → x.toInt? = y.toInt? := Binary64.toInt?_congr
  cases hx : x.toInt? with
  | some m =>
    have hself := (Binary64.same_of_toInt? hx hx).trans (beq_self_eq_true m)
    rw [(sameScalar_real hself y k l).1, compared_real_of_toInt? hx]
    cases hy : y.toInt? with
    | some n =>
      rw [Binary64.same_of_toInt? hx hy, compared_real_of_toInt? hy, beq_iff_eq]
      simp [ofInt]
    | none =>
      rw [compared_real_of_none hy]
      simp only [hx, hy, reduceCtorEq, imp_false] at hkind
      simp [ofInt, hkind]
  | none =>
    rw [compared_real_of_none hx]
    cases hy : y.toInt? with
    | some n =>
      have hne : x ≠ y := fun heq => by rw [heq, hy] at hx; cases hx
      rw [compared_real_of_toInt? hy]
      simp only [hx, hy, reduceCtorEq, imp_false] at hkind
      simp [sameScalar, ofInt, hkind, hne]
    | none =>
      rw [compared_real_of_none hy]
      by_cases heq : x = y
      · subst heq
        by_cases hnan : x = .nan
        · subst hnan; simp [sameScalar, Binary64.same]
        · simp [sameScalar, Binary64.same_self x hnan, hnan]
      · have hnot : ¬ x.same y = true := fun hsame => heq (Binary64.eq_of_same_of_toInt? hx hsame)
        simp [sameScalar, hnot, heq]

/-- Plain scalars are equal as parts of a container if they are compared by one value. -/
theorem sameScalar_iff (hv : v.isPlain = true) (hw : w.isPlain = true) :
    v.sameScalar true w = true ↔ v.compared = w.compared := by
  cases v with
  | real x k =>
    cases w with
    | real y l => exact sameScalar_real_iff k l
    | _ => first
      | (cases hw; done)
      | cases hx : x.toInt? <;> simp [sameScalar, compared, integer?, hx, ofInt, ofText]
  | none | bool _ | int _ _ | text _ _ =>
    cases w with
    | real y l =>
      cases hy : y.toInt? <;> simp [sameScalar, compared, integer?, hy, ofInt, ofText]
    | _ => first
      | (cases hw; done)
      | simp [sameScalar, compared, integer?, text?, ofInt, ofText]
  | _ => cases hv

end Value

/-! ### Trees -/

namespace Tree

variable {t u w t' u' : Tree String} {ts us : Entries String (Tree String)} {key : String}

/-- Whether a tree is plain data, with each key once at every level. -/
structure Proper (t : Tree String) : Prop where
  distinct : t.Distinct
  plain : t.isPlain = true

namespace Proper

theorem item {ts : List (Tree String)} (hp : Proper (.list ts)) : ∀ t ∈ ts, Proper t :=
  fun t ht => ⟨distinctList_iff.mp hp.distinct t ht, allLeavesList_iff.mp hp.plain t ht⟩

theorem get? (hp : Proper (.map ts)) (ht : Entries.get? key ts = some t) : Proper t :=
  ⟨hp.distinct.get? ht, allLeavesEntries_iff.mp hp.plain _ (Entries.mem_of_get? ht)⟩

theorem deepMerge (ht : Proper t) (hu : Proper u) : Proper (t.deepMerge u) :=
  ⟨distinct_deepMerge ht.distinct hu.distinct, allLeaves_deepMerge ht.plain hu.plain⟩

end Proper

/-! ### What is compared with what -/

theorem alike_leaf_iff {v w : Value} (hv : Proper (.leaf v)) (hw : Proper (.leaf w)) :
    (Tree.leaf v).alike (.leaf w) = true ↔ v.compared = w.compared :=
  Value.sameScalar_iff hv.plain hw.plain

/-- Likeness of what there may be. -/
abbrev AlikeOn : Option (Tree String) → Option (Tree String) → Prop :=
  Option.Rel fun t u => t.alike u = true

/-- Lists are alike if what stands at each place is. -/
theorem alike_list_iff {ts us : List (Tree String)} :
    (Tree.list ts).alike (.list us) = true ↔ ∀ i : Nat, AlikeOn ts[i]? us[i]? := by
  rw [alike]
  induction ts generalizing us with
  | nil =>
    cases us with
    | nil => exact ⟨fun _ _ => .none, fun _ => rfl⟩
    | cons u us => exact ⟨fun h => (by cases h), fun h => (by cases h 0)⟩
  | cons t ts ih =>
    cases us with
    | nil => exact ⟨fun h => (by cases h), fun h => (by cases h 0)⟩
    | cons u us =>
      rw [alikeList, Bool.and_eq_true, ih]
      constructor
      · -- the first items are compared by themselves, the others by their place one further on
        rintro ⟨h, hrest⟩ (_ | i)
        · exact .some h
        · exact hrest i
      · intro h
        have hfirst : AlikeOn (some t) (some u) := h 0
        cases hfirst with
        | some hfirst => exact ⟨hfirst, fun i => h (i + 1)⟩

/-- Maps are alike if what each key has is. -/
theorem alike_map_iff (ht : Proper (.map ts)) (hu : Proper (.map us)) :
    (Tree.map ts).alike (.map us) = true ↔
      ∀ key, AlikeOn (Entries.get? key ts) (Entries.get? key us) := by
  rw [alike, Bool.and_eq_true, beq_iff_eq, alikeEntries_iff]
  exact matched_iff (R := fun t u => t.alike u = true) ht.distinct.1 hu.distinct.1

/-- What is alike are maps, or neither is. -/
theorem isMap_eq_of_alike (h : t.alike u = true) : t.isMap = u.isMap := by
  cases t <;> cases u <;> first | rfl | cases h

/-- An item is lower than its list. -/
theorem height_getElem?_lt {ts : List (Tree String)} {i : Nat} (ht : ts[i]? = some t) :
    t.height < (Tree.list ts).height := by
  rw [height]
  exact Nat.lt_succ_of_le (height_le_heightList (List.mem_of_getElem? ht))

/-! ### An equivalence -/

theorem AlikeOn.symm {o p : Option (Tree String)} (h : AlikeOn o p)
    (hsymm : ∀ t u, o = some t → p = some u → t.alike u = true → u.alike t = true) :
    AlikeOn p o := by
  cases h with
  | none => exact .none
  | some h => exact .some (hsymm _ _ rfl rfl h)

theorem AlikeOn.trans {o p q : Option (Tree String)} (h : AlikeOn o p) (h' : AlikeOn p q)
    (htrans : ∀ t u w, o = some t → p = some u → q = some w → t.alike u = true →
      u.alike w = true → t.alike w = true) : AlikeOn o q := by
  cases h with
  | none => exact h'
  | some h => cases h' with | some h' => exact .some (htrans _ _ _ rfl rfl rfl h h')

/-- Likeness goes both ways. -/
theorem alike_symm (ht : Proper t) (hu : Proper u) (h : t.alike u = true) : u.alike t = true := by
  -- by the height of the first, as the items of lists are compared one by one and entries by their
  -- keys
  induction hn : t.height using Nat.strongRecOn generalizing t u with
  | ind n ih =>
    cases t with
    | leaf v =>
      cases u with
      | leaf w => exact (alike_leaf_iff hu ht).mpr ((alike_leaf_iff ht hu).mp h).symm
      | _ => cases h
    | list ts =>
      cases u with
      | list us =>
        exact alike_list_iff.mpr fun i => (alike_list_iff.mp h i).symm fun t u hti hui h =>
          ih _ (hn ▸ height_getElem?_lt hti) (ht.item _ (List.mem_of_getElem? hti))
            (hu.item _ (List.mem_of_getElem? hui)) h rfl
      | _ => cases h
    | map ts =>
      cases u with
      | map us =>
        exact (alike_map_iff hu ht).mpr fun key =>
          ((alike_map_iff ht hu).mp h key).symm fun t u htk huk h =>
            ih _ (hn ▸ height_get?_lt htk) (ht.get? htk) (hu.get? huk) h rfl
      | _ => cases h

/-- What is like the same is alike. -/
theorem alike_trans (ht : Proper t) (hu : Proper u) (hw : Proper w) (h : t.alike u = true)
    (h' : u.alike w = true) : t.alike w = true := by
  -- by the height of the first: what is alike is of one kind, and is compared part by part
  induction hn : t.height using Nat.strongRecOn generalizing t u w with
  | ind n ih =>
    cases t with
    | leaf v =>
      cases u with
      | leaf =>
        cases w with
        | leaf =>
          exact (alike_leaf_iff ht hw).mpr
            (((alike_leaf_iff ht hu).mp h).trans ((alike_leaf_iff hu hw).mp h'))
        | _ => cases h'
      | _ => cases h
    | list ts =>
      cases u with
      | list us =>
        cases w with
        | list ws =>
          exact alike_list_iff.mpr fun i =>
            (alike_list_iff.mp h i).trans (alike_list_iff.mp h' i) fun t u w hti hui hwi h h' =>
              ih _ (hn ▸ height_getElem?_lt hti) (ht.item _ (List.mem_of_getElem? hti))
                (hu.item _ (List.mem_of_getElem? hui)) (hw.item _ (List.mem_of_getElem? hwi)) h h' rfl
        | _ => cases h'
      | _ => cases h
    | map ts =>
      cases u with
      | map us =>
        cases w with
        | map ws =>
          exact (alike_map_iff ht hw).mpr fun key =>
            ((alike_map_iff ht hu).mp h key).trans ((alike_map_iff hu hw).mp h' key)
              fun t u w htk huk hwk h h' => ih _ (hn ▸ height_get?_lt htk) (ht.get? htk)
                (hu.get? huk) (hw.get? hwk) h h' rfl
        | _ => cases h'
      | _ => cases h

/-! ### The order of keys -/

mutual

/-- Whether a tree is another with its keys in another order, at any depth, and with equal leaves. -/
def Reordered : Tree String → Tree String → Prop
  | .leaf v, .leaf w => v.sameScalar true w = true
  | .list ts, .list us => ReorderedList ts us
  | .map ts, .map us => ∃ vs, ReorderedEntries ts vs ∧ vs.Perm us
  | _, _ => False

/-- `Reordered`, item by item. -/
def ReorderedList : List (Tree String) → List (Tree String) → Prop
  | [], us => us = []
  | t :: ts, us => ∃ u rest, us = u :: rest ∧ Reordered t u ∧ ReorderedList ts rest

/-- `Reordered`, entry by entry. -/
def ReorderedEntries : List (String × Tree String) → List (String × Tree String) → Prop
  | [], us => us = []
  | (key, t) :: ts, us => ∃ u rest, us = (key, u) :: rest ∧ Reordered t u ∧ ReorderedEntries ts rest

end

mutual

/-- The order of keys does not matter at any depth. -/
theorem alike_of_reordered : ∀ {t u : Tree String}, t.Distinct → Reordered t u → t.alike u = true
  | .leaf _, .leaf _, _, h => h
  | .list _, .list _, hd, h => alikeList_of_reordered hd h
  | .map ts, .map us, hd, ⟨vs, hvs, hperm⟩ => by
    obtain ⟨hkeys, hfound⟩ := alikeEntries_of_reordered hd.2 hvs
    have hnodup : (Entries.keys us).Nodup :=
      (hperm.map _).nodup_iff.mp (hkeys ▸ hd.1 : (Entries.keys vs).Nodup)
    have hlen : ts.length = us.length := by
      rw [← hperm.length_eq]
      simpa [Entries.keys] using congrArg List.length hkeys
    rw [alike, hlen, beq_self_eq_true, Bool.true_and, alikeEntries_iff]
    intro p hp
    obtain ⟨u, hu, halike⟩ := hfound p hp
    exact ⟨u, Entries.get?_of_mem hnodup (hperm.mem_iff.mp hu), halike⟩

/-- `alike_of_reordered`, item by item. -/
theorem alikeList_of_reordered : ∀ {ts us : List (Tree String)}, DistinctList ts →
    ReorderedList ts us → alikeList ts us = true
  | [], _, _, h => by rw [ReorderedList] at h; rw [h, alikeList]
  | _ :: _, _, hd, ⟨u, rest, hus, h, hrest⟩ => by
    rw [hus, alikeList, alike_of_reordered hd.1 h, alikeList_of_reordered hd.2 hrest, Bool.and_self]

/-- `alike_of_reordered`, entry by entry. -/
theorem alikeEntries_of_reordered : ∀ {ts us : List (String × Tree String)}, DistinctEntries ts →
    ReorderedEntries ts us → Entries.keys ts = Entries.keys us ∧
      ∀ p ∈ ts, ∃ u, (p.1, u) ∈ us ∧ p.2.alike u = true
  | [], _, _, h => ⟨h ▸ rfl, fun _ hp => absurd hp List.not_mem_nil⟩
  | (key, t) :: ts, _, hd, ⟨u, rest, hus, h, hrest⟩ => by
    obtain ⟨hkeys, hfound⟩ := alikeEntries_of_reordered hd.2 hrest
    subst hus
    refine ⟨congrArg (key :: ·) hkeys, List.forall_mem_cons.mpr
      ⟨⟨u, List.mem_cons_self, alike_of_reordered hd.1 h⟩, fun p hp => ?_⟩⟩
    obtain ⟨w, hw, halike⟩ := hfound p hp
    exact ⟨w, List.mem_cons_of_mem _ hw, halike⟩

end

/-! ### Merging -/

/-- What a key has after a merge is alike if what both sides have is. -/
theorem AlikeOn.mergeOn {o p o' p' : Option (Tree String)} (ho : AlikeOn o o') (hp : AlikeOn p p')
    (hmerge : ∀ t u t' u', o = some t → p = some u → o' = some t' → p' = some u' →
      t.alike t' = true → u.alike u' = true → (t.deepMerge u).alike (t'.deepMerge u') = true) :
    AlikeOn (mergeOn o p) (mergeOn o' p') := by
  cases ho with
  | none => simpa using hp
  | some ht =>
    cases hp with
    | none => exact .some ht
    | some hu => exact .some (hmerge _ _ _ _ rfl rfl rfl rfl ht hu)

/-- Merges of trees that are alike are alike. -/
theorem alike_deepMerge_congr (ht : Proper t) (hu : Proper u) (ht' : Proper t') (hu' : Proper u')
    (h : t.alike t' = true) (h' : u.alike u' = true) :
    (t.deepMerge u).alike (t'.deepMerge u') = true := by
  induction hn : t.height using Nat.strongRecOn generalizing t u t' u' with
  | ind n ih =>
    have hmaps : (t.isMap && u.isMap) = (t'.isMap && u'.isMap) := by
      rw [isMap_eq_of_alike h, isMap_eq_of_alike h']
    cases hboth : t.isMap && u.isMap with
    | false =>
      -- both are replaced, by what is alike
      rw [deepMerge_of_not_map hboth, deepMerge_of_not_map (hmaps ▸ hboth)]
      exact h'
    | true =>
      obtain ⟨⟨ts, rfl⟩, us, rfl⟩ : (∃ ts, t = .map ts) ∧ ∃ us, u = .map us := by
        cases t <;> cases u <;> simp [isMap] at hboth ⊢
      obtain ⟨⟨ts', rfl⟩, us', rfl⟩ : (∃ ts, t' = .map ts) ∧ ∃ us, u' = .map us := by
        cases t' <;> cases u' <;> simp [isMap] at hmaps ⊢
      have hd := ht.deepMerge hu
      have hd' := ht'.deepMerge hu'
      rw [deepMerge_map] at hd hd' ⊢
      rw [deepMerge_map, alike_map_iff hd hd']
      intro key
      rw [get?_mergeEntries_eq, get?_mergeEntries_eq]
      exact ((alike_map_iff ht ht').mp h key).mergeOn ((alike_map_iff hu hu').mp h' key)
        fun t u t' u' htk huk htk' huk' h h' => ih _ (hn ▸ height_get?_lt htk) (ht.get? htk)
          (hu.get? huk) (ht'.get? htk') (hu'.get? huk') h h' rfl

end Tree

end PageMeta
