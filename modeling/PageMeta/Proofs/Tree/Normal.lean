import PageMeta.Proofs.Value.Entries

/-!
# Normal form of trees

A tree that was read off something a caller hands in can have a key twice at one level: two keys of
a dictionary can have one text.  Its normal form writes the entries of each level one after the
other, so that a key that comes again keeps its place and takes the last value.

## Key results

- `distinct_norm`: in a normal form every level has each key once
- `norm_of_distinct`: a tree that has each key once at every level is its own normal form
-/

namespace PageMeta.Tree

mutual

/-- Whether every level has each key once. -/
def Distinct : Tree String → Prop
  | .leaf _ => True
  | .list items => DistinctList items
  | .map entries => (Entries.keys entries).Nodup ∧ DistinctEntries entries

/-- `Distinct` for every tree of a list. -/
def DistinctList : List (Tree String) → Prop
  | [] => True
  | t :: rest => Distinct t ∧ DistinctList rest

/-- `Distinct` for the value of every entry. -/
def DistinctEntries : List (String × Tree String) → Prop
  | [] => True
  | (_, t) :: rest => Distinct t ∧ DistinctEntries rest

end

mutual

/-- Whether the keys of a tree are distinct can be worked out. -/
def decideDistinct : (t : Tree String) → Decidable t.Distinct
  | .leaf _ => .isTrue trivial
  | .list items => decideDistinctList items
  | .map entries =>
    have := decideDistinctEntries entries
    inferInstanceAs (Decidable ((Entries.keys entries).Nodup ∧ DistinctEntries entries))

/-- `decideDistinct` for every tree of a list. -/
def decideDistinctList : (items : List (Tree String)) → Decidable (DistinctList items)
  | [] => .isTrue trivial
  | t :: rest =>
    have := decideDistinct t
    have := decideDistinctList rest
    inferInstanceAs (Decidable (Distinct t ∧ DistinctList rest))

/-- `decideDistinct` for the value of every entry. -/
def decideDistinctEntries :
    (entries : List (String × Tree String)) → Decidable (DistinctEntries entries)
  | [] => .isTrue trivial
  | (_, t) :: rest =>
    have := decideDistinct t
    have := decideDistinctEntries rest
    inferInstanceAs (Decidable (Distinct t ∧ DistinctEntries rest))

end

instance : DecidablePred Distinct := decideDistinct

mutual

/-- Writes the entries of every level one after the other. -/
def norm : Tree String → Tree String
  | .leaf v => .leaf v
  | .list items => .list (normList items)
  | .map entries => .map (Entries.ofList (normEntries entries))

/-- `norm` of every tree of a list. -/
def normList : List (Tree String) → List (Tree String)
  | [] => []
  | t :: rest => norm t :: normList rest

/-- `norm` of the value of every entry. -/
def normEntries : List (String × Tree String) → List (String × Tree String)
  | [] => []
  | (key, t) :: rest => (key, norm t) :: normEntries rest

end

theorem distinctList_iff {items : List (Tree String)} :
    DistinctList items ↔ ∀ t ∈ items, Distinct t := by
  induction items with
  | nil => simp [DistinctList]
  | cons t rest ih => simp [DistinctList, ih]

theorem distinctEntries_iff {entries : List (String × Tree String)} :
    DistinctEntries entries ↔ ∀ p ∈ entries, Distinct p.2 := by
  induction entries with
  | nil => simp [DistinctEntries]
  | cons p rest ih => obtain ⟨key, t⟩ := p; simp [DistinctEntries, ih]

@[simp] theorem keys_normEntries (entries : List (String × Tree String)) :
    Entries.keys (normEntries entries) = Entries.keys entries := by
  induction entries with
  | nil => rfl
  | cons p rest ih =>
    obtain ⟨key, t⟩ := p
    simp only [normEntries, Entries.keys, List.map_cons] at ih ⊢
    rw [ih]

/-- Writing one entry keeps a property of all values. -/
theorem forall_put {P : Tree String → Prop} {key : String} {t : Tree String}
    {entries : Entries String (Tree String)} (ht : P t) (h : ∀ p ∈ entries, P p.2) :
    ∀ p ∈ Entries.put key t entries, P p.2 := by
  induction entries with
  | nil => simpa [Entries.put] using ht
  | cons q rest ih =>
    obtain ⟨k, u⟩ := q
    have hu : P u := h (k, u) List.mem_cons_self
    have hrest := ih fun p hp => h p (List.mem_cons_of_mem _ hp)
    rw [Entries.put]
    split
    · exact List.forall_mem_cons.mpr ⟨ht, fun p hp => h p (List.mem_cons_of_mem _ hp)⟩
    · exact List.forall_mem_cons.mpr ⟨hu, hrest⟩

/-- Writing entries one after the other keeps a property of all values. -/
theorem forall_putAll {P : Tree String → Prop} {pairs : List (String × Tree String)}
    {entries : Entries String (Tree String)} (hp : ∀ p ∈ pairs, P p.2)
    (h : ∀ p ∈ entries, P p.2) : ∀ p ∈ Entries.putAll entries pairs, P p.2 := by
  induction pairs generalizing entries with
  | nil => exact h
  | cons q rest ih =>
    exact ih (fun p hr => hp p (List.mem_cons_of_mem _ hr))
      (forall_put (hp q List.mem_cons_self) h)

mutual

/-- In a normal form every level has each key once. -/
theorem distinct_norm : ∀ t : Tree String, (norm t).Distinct
  | .leaf _ => trivial
  | .list items => distinct_normList items
  | .map entries =>
    ⟨Entries.nodup_keys_putAll _ List.nodup_nil,
      distinctEntries_iff.mpr (forall_putAll (distinct_normEntries entries) (by simp))⟩

/-- `distinct_norm` for every tree of a list. -/
theorem distinct_normList : ∀ items : List (Tree String), DistinctList (normList items)
  | [] => trivial
  | t :: rest => ⟨distinct_norm t, distinct_normList rest⟩

/-- `distinct_norm` for the value of every entry. -/
theorem distinct_normEntries : ∀ entries : List (String × Tree String),
    ∀ p ∈ normEntries entries, Distinct p.2
  | [] => by simp [normEntries]
  | (_, t) :: rest => by
    simp only [normEntries, List.mem_cons, forall_eq_or_imp]
    exact ⟨distinct_norm t, distinct_normEntries rest⟩

end

mutual

/-- A tree that has each key once at every level is its own normal form. -/
theorem norm_of_distinct : ∀ {t : Tree String}, t.Distinct → norm t = t
  | .leaf _, _ => rfl
  | .list items, h => by rw [norm, normList_of_distinct h]
  | .map entries, h => by
    rw [norm, normEntries_of_distinct h.2, Entries.ofList_eq_self h.1]

/-- `norm_of_distinct` for every tree of a list. -/
theorem normList_of_distinct : ∀ {items : List (Tree String)}, DistinctList items →
    normList items = items
  | [], _ => rfl
  | t :: rest, h => by rw [normList, norm_of_distinct h.1, normList_of_distinct h.2]

/-- `norm_of_distinct` for the value of every entry. -/
theorem normEntries_of_distinct : ∀ {entries : List (String × Tree String)},
    DistinctEntries entries → normEntries entries = entries
  | [], _ => rfl
  | (key, t) :: rest, h => by
    rw [normEntries, norm_of_distinct h.1, normEntries_of_distinct h.2]

end

end PageMeta.Tree
