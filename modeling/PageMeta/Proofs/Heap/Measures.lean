import PageMeta.Proofs.Heap.PlainData

/-!
# Lengths of plain data

How long plain data are, and whether they count as true, depends on the tree that they show only.

## Key results

- `Tree.under`: what a map has under a name, which is how rules ask for plain data
- `Reads.length_eq`, `Reads.truth_eq`: a value is as long as what it shows
-/

namespace PageMeta

namespace Tree

/-- The length of plain data. -/
def length : Tree String → Except Error Nat
  | .leaf v => Heap.empty.length v
  | .list ts => .ok ts.length
  | .map ts => .ok ts.length

/-- Whether plain data count as true. -/
def truth : Tree String → Bool
  | .leaf v => Heap.empty.truth v
  | .list ts => ts.length != 0
  | .map ts => ts.length != 0

/-- Whether plain data that count as true are longer than a limit. -/
def exceeds (t : Tree String) (limit : Nat) : Except Error Bool :=
  if t.truth then t.length.map fun n => decide (limit < n) else .ok false

/-- What a map has under a key; nothing is the absent value. -/
def under (key : String) : Tree String → Tree String
  | .map ts => (Entries.get? key ts).getD (.leaf .none)
  | _ => .leaf .none

theorem isPlain_under {t : Tree String} (hp : t.isPlain = true) (key : String) :
    (t.under key).isPlain = true := by
  cases t with
  | leaf v => rfl
  | list ts => rfl
  | map ts =>
    rw [under]
    cases hget : Entries.get? key ts with
    | none => rfl
    | some u => exact allLeavesEntries_iff.mp hp _ (Entries.mem_of_get? hget)

end Tree

namespace Heap

variable {h : Heap} {view : View} {within : Ref → Prop} {t : Tree String} {v : Value}

/-- What shows a list or a map is as long as that. -/
theorem Reads.length_of_not_leaf (hv : view ≠ .given) (hr : h.Reads view within t v)
    (hn : ∀ x, t ≠ .leaf x) : h.length v = t.length := by
  cases t with
  | leaf x => exact absurd rfl (hn x)
  | list ts =>
    obtain ⟨items, hi, -, hts⟩ := hr
    obtain ⟨r, rfl, -⟩ := ref_of_items? hi
    have hlen : ts.length = items.length := (readsItems_iff.mp hts).length_eq
    simp [length, Tree.length, read_of_items? hv hi, cellLength?, hlen]
  | map ts =>
    obtain ⟨entries, he, -, -, hts⟩ := hr
    have hlen : ts.length = entries.length := (readsEntries_iff.mp hts).length_eq
    -- a dictionary, or a map that keeps its entries in one
    obtain ⟨r, rfl, ⟨hd, -⟩ | ⟨d, hm, hd, -⟩⟩ := cell_of_entries? he
    · simp [length, Tree.length, hd, cellLength?, hlen]
    · simp [length, Tree.length, hm, cellLength?, dict?_of_dict hd, hlen]

/-- The length of a value is that of what it shows. -/
theorem Reads.length_eq (hv : view ≠ .given) (hr : h.Reads view within t v)
    (hp : t.isPlain = true) : h.length v = t.length := by
  cases t with
  | leaf x =>
    -- the length of a plain scalar, or that it has none, depends on no cell
    obtain ⟨rfl, -⟩ := hr
    cases v <;> first | (cases hp; done) | rfl
  | list ts => exact hr.length_of_not_leaf hv fun _ heq => by cases heq
  | map ts => exact hr.length_of_not_leaf hv fun _ heq => by cases heq

/-- What shows a list or a map counts as true if that does. -/
theorem Reads.truth_of_not_leaf (hv : view ≠ .given) (hr : h.Reads view within t v)
    (hn : ∀ x, t ≠ .leaf x) : h.truth v = t.truth := by
  have hlength := hr.length_of_not_leaf hv hn
  cases t with
  | leaf x => exact absurd rfl (hn x)
  | list ts =>
    obtain ⟨items, hi, -⟩ := hr
    obtain ⟨r, rfl, -⟩ := ref_of_items? hi
    simp only [truth, hlength, Tree.length, Tree.truth]
  | map ts =>
    obtain ⟨entries, he, -⟩ := hr
    obtain ⟨r, rfl, -⟩ := ref_of_entries? he
    simp only [truth, hlength, Tree.length, Tree.truth]

/-- Whether a value counts as true depends on what it shows. -/
theorem Reads.truth_eq (hv : view ≠ .given) (hr : h.Reads view within t v)
    (hp : t.isPlain = true) : h.truth v = t.truth := by
  cases t with
  | leaf x =>
    obtain ⟨rfl, -⟩ := hr
    cases v <;> first | (cases hp; done) | rfl
  | list ts => exact hr.truth_of_not_leaf hv fun _ heq => by cases heq
  | map ts => exact hr.truth_of_not_leaf hv fun _ heq => by cases heq

end Heap

end PageMeta
