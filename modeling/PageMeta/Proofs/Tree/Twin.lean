import Mathlib.Data.List.Perm.Subperm
import PageMeta.Proofs.Tree.Alike

/-!
# Trees with the same content

One content can be written down twice: then the keys may come in another order, and the texts and
numbers are other objects of the same type.  Nothing that is asked of plain data tells the two
apart.

Trees that are alike may still differ in type, as the number one and the truth value do, and then
their lengths are asked for with different errors.

## Key results

- `twin_refl`: a tree has its own content
- `twin_map_iff`: maps have the same content if each key has
-/

namespace PageMeta

/-! ### Numbers -/

namespace Binary64

variable {x y : Binary64}

/-- Doubles are equal as numbers if they are one, or zeros. -/
theorem eq_or_zeros_of_same (h : x.same y = true) :
    x = y ∨ ∃ s t, x = .finite s 0 ∧ y = .finite t 0 := by
  cases x with
  | finite s m =>
    cases y with
    | finite t n =>
      have heq : signed s m = signed t n := eq_of_beq h
      have hcases : m = n ∧ (s = t ∨ m = 0) := by
        cases s <;> cases t <;> simp [signed] at heq ⊢ <;> omega
      obtain ⟨rfl, rfl | rfl⟩ := hcases
      · exact .inl rfl
      · exact .inr ⟨s, t, rfl, rfl⟩
    | _ => cases h
  | infinite s =>
    cases y with
    | infinite t => rw [eq_of_beq h]; exact .inl rfl
    | _ => cases h
  | nan => cases h

/-- Equal doubles are equal to the same numbers. -/
theorem same_congr (h : x.same y = true) (z : Binary64) : x.same z = y.same z := by
  rcases eq_or_zeros_of_same h with rfl | ⟨s, t, rfl, rfl⟩
  · rfl
  · cases z <;> cases s <;> cases t <;> rfl

theorem toInt?_congr (h : x.same y = true) : x.toInt? = y.toInt? := by
  rcases eq_or_zeros_of_same h with rfl | ⟨s, t, rfl, rfl⟩
  · rfl
  · simp only [toInt?, Nat.zero_mod, Nat.zero_div]
    cases s <;> cases t <;> rfl

theorem same_comm (x y : Binary64) : x.same y = y.same x := by
  cases x <;> cases y <;> simp only [same] <;> exact Bool.beq_comm

theorem same_self_of_same (h : x.same y = true) : x.same x = true ∧ y.same y = true := by
  have hy : y.same y = true := by rw [← same_congr h y, h]
  exact ⟨by rw [same_congr h x, same_comm, h], hy⟩

end Binary64

/-! ### Scalars -/

namespace Value

/-- Whether two values have one type and one content: only texts, bytes and numbers can do so as
different objects.  A not-a-number is the same only as one object. -/
def twin : Value → Value → Bool
  | .int m _, .int n _ => m == n
  | .real x m, .real y n => x.same y || (x == y && m == n)
  | .text s _, .text t _ => s == t
  | .bytes bs _, .bytes cs _ => bs == cs
  | v, w => v == w

variable {v w : Value}

/-- Values with one content are one, or two objects of a type that allows that. -/
theorem twin_cases (h : v.twin w = true) : v = w ∨ (∃ n k l, v = .int n k ∧ w = .int n l) ∨
    (∃ x y k l, v = .real x k ∧ w = .real y l ∧ x.same y = true) ∨
    (∃ s k l, v = .text s k ∧ w = .text s l) ∨ ∃ bs k l, v = .bytes bs k ∧ w = .bytes bs l := by
  unfold twin at h
  split at h
  · rw [eq_of_beq h]; exact .inr (.inl ⟨_, _, _, rfl, rfl⟩)
  · rw [Bool.or_eq_true, Bool.and_eq_true] at h
    rcases h with h | ⟨hx, hm⟩
    · exact .inr (.inr (.inl ⟨_, _, _, _, rfl, rfl, h⟩))
    · rw [eq_of_beq hx, eq_of_beq hm]; exact .inl rfl
  · rw [eq_of_beq h]; exact .inr (.inr (.inr (.inl ⟨_, _, _, rfl, rfl⟩)))
  · rw [eq_of_beq h]; exact .inr (.inr (.inr (.inr ⟨_, _, _, rfl, rfl⟩)))
  · exact .inl (eq_of_beq h)

theorem twin_refl (v : Value) : v.twin v = true := by
  cases v <;> simp [twin]

/-- Equality of doubles as parts of a container, if one of them is a number. -/
theorem sameScalar_real {x : Binary64} (hx : x.same x = true) (z : Binary64) (k l : Mark) :
    (Value.real x k).sameScalar true (.real z l) = x.same z ∧
      (Value.real z l).sameScalar true (.real x k) = z.same x := by
  -- objects are only looked at if the doubles are one, and then they are equal as numbers
  have habsorb : ∀ b : Bool, (x == z) = true → (x.same z || b) = x.same z := by
    intro b heq
    rw [← eq_of_beq heq, hx, Bool.true_or]
  simp only [sameScalar, Bool.true_and, Binary64.same_comm z x, Bool.beq_comm (a := z)]
  cases heq : x == z with
  | false => simp
  | true => exact ⟨habsorb _ heq, habsorb _ heq⟩

/-- What has the same content is equal to the same scalars. -/
theorem sameScalar_congr_left (h : v.twin w = true) (z : Value) :
    v.sameScalar true z = w.sameScalar true z := by
  rcases twin_cases h with rfl | ⟨n, k, l, rfl, rfl⟩ | ⟨x, y, k, l, rfl, rfl, hxy⟩ |
    ⟨s, k, l, rfl, rfl⟩ | ⟨bs, k, l, rfl, rfl⟩
  · rfl
  · cases z <;> rfl
  · obtain ⟨hx, hy⟩ := Binary64.same_self_of_same hxy
    cases z with
    | real z m =>
      rw [(sameScalar_real hx z k m).1, (sameScalar_real hy z l m).1, Binary64.same_congr hxy]
    | _ => simp only [sameScalar, Binary64.toInt?_congr hxy]
  · cases z <;> rfl
  · cases z <;> rfl

@[inherit_doc sameScalar_congr_left]
theorem sameScalar_congr_right (h : v.twin w = true) (z : Value) :
    z.sameScalar true v = z.sameScalar true w := by
  rcases twin_cases h with rfl | ⟨n, k, l, rfl, rfl⟩ | ⟨x, y, k, l, rfl, rfl, hxy⟩ |
    ⟨s, k, l, rfl, rfl⟩ | ⟨bs, k, l, rfl, rfl⟩
  · rfl
  · cases z <;> rfl
  · obtain ⟨hx, hy⟩ := Binary64.same_self_of_same hxy
    cases z with
    | real z m =>
      rw [(sameScalar_real hx z k m).2, (sameScalar_real hy z l m).2, Binary64.same_comm z,
        Binary64.same_comm z, Binary64.same_congr hxy]
    | _ => simp only [sameScalar, Binary64.toInt?_congr hxy]
  · cases z <;> rfl
  · cases z <;> rfl

end Value

/-! ### Trees -/

namespace Tree

mutual

/-- Whether two trees have the same content, up to the order of keys. -/
def Twin : Tree String → Tree String → Prop
  | .leaf v, .leaf w => v.twin w = true
  | .list ts, .list us => TwinList ts us
  | .map ts, .map us => ts.length = us.length ∧ TwinEntries ts us
  | _, _ => False

/-- `Twin`, item by item. -/
def TwinList : List (Tree String) → List (Tree String) → Prop
  | [], [] => True
  | t :: ts, u :: us => Twin t u ∧ TwinList ts us
  | _, _ => False

/-- Whether each entry has the same content as the one that is found under its key. -/
def TwinEntries : List (String × Tree String) → Entries String (Tree String) → Prop
  | [], _ => True
  | (key, t) :: ts, us => (∃ u, Entries.get? key us = some u ∧ Twin t u) ∧ TwinEntries ts us

end

/-- The number one and the truth value are alike, but not twins. -/
example : alike (.leaf (.ofInt 1)) (.leaf (.bool true)) = true ∧
    ¬ Twin (.leaf (.ofInt 1)) (.leaf (.bool true)) := by
  constructor
  · rfl
  · simp [Twin, Value.twin, Value.ofInt]

variable {t u t' u' : Tree String} {ts us : Entries String (Tree String)} {key : String}

theorem twinEntries_iff {ts : List (String × Tree String)} {us : Entries String (Tree String)} :
    TwinEntries ts us ↔ ∀ p ∈ ts, ∃ u, Entries.get? p.1 us = some u ∧ Twin p.2 u := by
  induction ts with
  | nil => simp [TwinEntries]
  | cons p ts ih => obtain ⟨key, t⟩ := p; rw [TwinEntries, ih, List.forall_mem_cons]

theorem Twin.length_eq : ∀ {ts us : List (Tree String)}, TwinList ts us → ts.length = us.length
  | [], [], _ => rfl
  | _ :: _, _ :: _, ⟨_, h⟩ => congrArg Nat.succ (Twin.length_eq h)

mutual

/-- A tree with each key once at every level has its own content. -/
theorem twin_refl : ∀ {t : Tree String}, t.Distinct → Twin t t
  | .leaf v, _ => v.twin_refl
  | .list _, hd => twinList_refl hd
  | .map _, hd => ⟨rfl, twinEntries_iff.mpr fun p hp =>
      ⟨p.2, Entries.get?_of_mem hd.1 hp, twinEntries_refl hd.2 p hp⟩⟩

/-- `twin_refl`, item by item. -/
theorem twinList_refl : ∀ {ts : List (Tree String)}, DistinctList ts → TwinList ts ts
  | [], _ => trivial
  | _ :: _, hd => ⟨twin_refl hd.1, twinList_refl hd.2⟩

/-- `twin_refl`, entry by entry. -/
theorem twinEntries_refl : ∀ {ts : List (String × Tree String)}, DistinctEntries ts →
    ∀ p ∈ ts, Twin p.2 p.2
  | [], _, _, hp => absurd hp List.not_mem_nil
  | (_, _) :: _, hd, p, hp => by
    rcases List.mem_cons.mp hp with rfl | hp
    · exact twin_refl hd.1
    · exact twinEntries_refl hd.2 p hp

end

/-- Entries match whatever their order if what each key has does. -/
theorem matched_iff {R : Tree String → Tree String → Prop} (ht : (Entries.keys ts).Nodup)
    (hu : (Entries.keys us).Nodup) :
    (ts.length = us.length ∧ ∀ p ∈ ts, ∃ u, Entries.get? p.1 us = some u ∧ R p.2 u) ↔
      ∀ key, Option.Rel R (Entries.get? key ts) (Entries.get? key us) := by
  have hlen : ts.length = (Entries.keys ts).length ∧ us.length = (Entries.keys us).length := by
    simp [Entries.keys]
  have hmem : ∀ {key : String} {es : Entries String (Tree String)},
      key ∈ Entries.keys es ↔ (Entries.get? key es).isSome = true :=
    fun {key es} => Entries.has_iff_mem.symm
  constructor
  · rintro ⟨hsize, hget⟩ key
    -- the keys of the first are keys of the second, and there are as many of them
    have hsub : Entries.keys ts ⊆ Entries.keys us := fun k hk => by
      obtain ⟨p, hp, rfl⟩ := List.mem_map.mp hk
      obtain ⟨u, hu, -⟩ := hget p hp
      exact hmem.mpr (by rw [hu]; rfl)
    have hperm : (Entries.keys ts).Perm (Entries.keys us) :=
      (List.subperm_of_subset ht hsub).perm_of_length_le (by omega)
    cases hk : Entries.get? key ts with
    | some t =>
      obtain ⟨u, hu, hr⟩ := hget _ (Entries.mem_of_get? hk)
      rw [hu]
      exact .some hr
    | none =>
      cases hk' : Entries.get? key us with
      | none => exact .none
      | some u =>
        have hkey := hmem.mp (hperm.mem_iff.mpr (hmem.mpr (by rw [hk']; rfl)))
        rw [hk] at hkey
        cases hkey
  · intro hget
    have hboth : ∀ key, (Entries.get? key ts).isSome = (Entries.get? key us).isSome := fun key => by
      have hkey := hget key
      generalize Entries.get? key ts = o, Entries.get? key us = p at hkey
      cases hkey <;> rfl
    have hperm : (Entries.keys ts).Perm (Entries.keys us) :=
      (List.perm_ext_iff_of_nodup ht hu).mpr fun key => by rw [hmem, hmem, hboth]
    refine ⟨by rw [hlen.1, hlen.2, hperm.length_eq], fun p hp => ?_⟩
    have hkey := hget p.1
    rw [Entries.get?_of_mem ht hp] at hkey
    cases hu : Entries.get? p.1 us with
    | some u => rw [hu] at hkey; cases hkey with | some hr => exact ⟨u, rfl, hr⟩
    | none => rw [hu] at hkey; cases hkey

/-- `Twin` for what there may be. -/
def TwinOn : Option (Tree String) → Option (Tree String) → Prop
  | some t, some u => Twin t u
  | none, none => True
  | _, _ => False

theorem twinOn_iff {o p : Option (Tree String)} : TwinOn o p ↔ Option.Rel Twin o p := by
  cases o <;> cases p <;> simp [TwinOn]

/-- Maps have the same content if each key has. -/
theorem twin_map_iff (ht : (Entries.keys ts).Nodup) (hu : (Entries.keys us).Nodup) :
    Twin (.map ts) (.map us) ↔ ∀ key, TwinOn (Entries.get? key ts) (Entries.get? key us) := by
  simp only [Twin, twinEntries_iff, matched_iff ht hu, twinOn_iff]

end Tree

end PageMeta
