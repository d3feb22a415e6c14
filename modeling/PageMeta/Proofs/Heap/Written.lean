import PageMeta.Heap.Printer
import PageMeta.Proofs.Heap.PlainData

/-!
# Written forms of plain data

The written form of plain data depends on the tree that they show, wherever their cells are: no cell
of theirs is too deep to be written out, and a key that is a text is written as one.  The one kind of
key that reads as a text and is written in another way is the state of a feature, so dictionaries with
such keys are told apart.

## Key results

- `TextKeyed`: whether the keys of a dictionary are texts themselves
- `Reads.written_eq`, `Reads.display_eq`: the written form of plain data is that of their tree
-/

namespace PageMeta

namespace Tree

mutual

/-- The written form of plain data inside other data. -/
def written : Tree String → String
  | .leaf v => Heap.empty.written v
  | .list ts => Heap.listText (writtenItems ts)
  | .map ts => Heap.dictText (writtenEntries ts)

/-- `written`, item by item. -/
def writtenItems : List (Tree String) → List String
  | [] => []
  | t :: ts => t.written :: writtenItems ts

/-- `written`, entry by entry; names are written as texts. -/
def writtenEntries : List (String × Tree String) → List (String × String)
  | [] => []
  | (name, t) :: ts => (Text.quote name, t.written) :: writtenEntries ts

end

/-- The text of plain data on their own. -/
def display : Tree String → String
  | .leaf v => Heap.empty.display v
  | t => t.written

/-- A text stands for itself. -/
example : display (.leaf (.ofText "en")) = "en" := rfl

end Tree

namespace Heap

/-- Whether a cell, if it is a dictionary, has keys that are texts themselves. -/
def IsTextKeyed (c : Cell) : Prop :=
  ∀ entries, c = .dict entries → ∀ p ∈ entries, ∃ s mark, p.1 = .atom (.text s mark)

/-- Whether the dictionary at an address, if there is one, has keys that are texts themselves. -/
def TextKeyed (h : Heap) (r : Ref) : Prop := ∀ c, h.read r = some c → IsTextKeyed c

variable {h : Heap} {within : Ref → Prop} {t : Tree String} {v : Value}

/-! ### One level -/

/-- The written form of a scalar depends on no cell. -/
theorem writtenTo_of_isPlain (hv : v.isPlain = true) (n m : Nat) (inMap inMap' : Bool) :
    h.writtenTo (n + 1) inMap v = Heap.empty.writtenTo (m + 1) inMap' v := by
  unfold writtenTo
  cases v <;> first | (cases hv; done) | rfl

theorem writtenTo_list {r : Ref} {items : List Value} (hr : h.read r = some (.list items)) (n : Nat)
    (inMap : Bool) :
    h.writtenTo (n + 1) inMap (.ref r) = listText (items.map (h.writtenTo n inMap)) := by
  conv_lhs => unfold writtenTo
  simp only [hr]

theorem writtenTo_dict {r : Ref} {entries : Entries Key Value} (hr : h.read r = some (.dict entries))
    (n : Nat) (inMap : Bool) :
    h.writtenTo (n + 1) inMap (.ref r) = dictText (entries.map fun p =>
      (keyWritten (h.writtenTo n false) p.1, h.writtenTo n false p.2)) := by
  conv_lhs => unfold writtenTo
  simp only [hr]

/-! ### All levels -/

mutual

theorem Reads.writtenTo_eq (hw : ∀ r, within r → h.TextKeyed r) : ∀ {t : Tree String} {v : Value}
    (n : Nat) (inMap : Bool), h.Reads .plain within t v → t.isPlain = true → t.height < n →
      h.writtenTo n inMap v = t.written
  | .leaf u, v, n, _, ⟨he, _, _⟩, hp, hn => by
    subst he
    have hv : v.isPlain = true := hp
    -- the limit is above the height, so a level is left
    obtain ⟨n, rfl⟩ := Nat.exists_eq_add_one_of_ne_zero (Nat.ne_zero_of_lt hn)
    exact writtenTo_of_isPlain hv n 0 _ false
  | .list ts, v, n, inMap, ⟨items, hi, _, hts⟩, hp, hn => by
    obtain ⟨n, rfl⟩ := Nat.exists_eq_add_one_of_ne_zero (Nat.ne_zero_of_lt hn)
    obtain ⟨r, rfl, -⟩ := ref_of_items? hi
    have hread := read_of_items? (by decide) hi
    rw [writtenTo_list hread, Tree.written,
      ReadsItems.writtenTo_eq hw n inMap hts hp (Nat.lt_of_succ_lt_succ hn)]
  | .map ts, v, n, _, ⟨entries, he, hown, _, hts⟩, hp, hn => by
    obtain ⟨n, rfl⟩ := Nat.exists_eq_add_one_of_ne_zero (Nat.ne_zero_of_lt hn)
    obtain ⟨r, rfl, ⟨hread, -⟩ | ⟨d, -, -, hview⟩⟩ := cell_of_entries? he
    · have hkeys := hw r (hown r (own_ref_mem r)) _ hread entries rfl
      rw [writtenTo_dict hread, Tree.written,
        ReadsEntries.writtenTo_eq hw n hts hp (Nat.lt_of_succ_lt_succ hn) hkeys]
    · exact absurd rfl hview

/-- `Reads.writtenTo_eq`, item by item. -/
theorem ReadsItems.writtenTo_eq (hw : ∀ r, within r → h.TextKeyed r) : ∀ {ts : List (Tree String)}
    {vs : List Value} (n : Nat) (inMap : Bool), h.ReadsItems .plain within ts vs →
      Tree.allLeavesList Value.isPlain ts = true → Tree.heightList ts < n →
      vs.map (h.writtenTo n inMap) = Tree.writtenItems ts
  | [], vs, _, _, hr, _, _ => by
    rw [ReadsItems] at hr
    rw [hr, List.map_nil, Tree.writtenItems]
  | t :: ts, _, n, inMap, ⟨v, rest, he, ht, hts⟩, hp, hn => by
    obtain ⟨hhead, hrest⟩ := max_lt_iff.mp hn
    rw [Tree.allLeavesList, Bool.and_eq_true] at hp
    rw [he, List.map_cons, Tree.writtenItems, Reads.writtenTo_eq hw n inMap ht hp.1 hhead,
      ReadsItems.writtenTo_eq hw n inMap hts hp.2 hrest]

/-- `Reads.writtenTo_eq`, entry by entry. -/
theorem ReadsEntries.writtenTo_eq (hw : ∀ r, within r → h.TextKeyed r) :
    ∀ {ts : List (String × Tree String)} {es : Entries Key Value} (n : Nat),
      h.ReadsEntries .plain within ts es → Tree.allLeavesEntries Value.isPlain ts = true →
      Tree.heightEntries ts < n → (∀ p ∈ es, ∃ s mark, p.1 = .atom (.text s mark)) →
      es.map (fun p => (keyWritten (h.writtenTo n false) p.1, h.writtenTo n false p.2)) =
        Tree.writtenEntries ts
  | [], es, _, hr, _, _, _ => by
    rw [ReadsEntries] at hr
    rw [hr, List.map_nil, Tree.writtenEntries]
  | (name, t) :: ts, _, n, ⟨key, v, rest, he, hk, ht, hts⟩, hp, hn, hkeys => by
    obtain ⟨n, rfl⟩ := Nat.exists_eq_add_one_of_ne_zero (Nat.ne_zero_of_lt hn)
    obtain ⟨hhead, hrest⟩ := max_lt_iff.mp hn
    rw [Tree.allLeavesEntries, Bool.and_eq_true] at hp
    rw [he, List.forall_mem_cons] at hkeys
    obtain ⟨⟨s, mark, heq⟩, hkeys⟩ := hkeys
    -- the text of the key is the name
    change key = _ at heq
    subst heq
    cases hk
    rw [he, List.map_cons, Tree.writtenEntries, Reads.writtenTo_eq hw (n + 1) false ht hp.1 hhead,
      ReadsEntries.writtenTo_eq hw (n + 1) hts hp.2 hrest hkeys]
    rfl

end

/-- The written form of plain data is that of what they show. -/
theorem Reads.written_eq (hw : ∀ r, within r → h.TextKeyed r) (hr : h.Reads .plain within t v)
    (hp : t.isPlain = true) : h.written v = t.written :=
  hr.writtenTo_eq hw _ _ hp (Nat.lt_succ_of_le hr.height_le)

/-- The text of plain data is that of what they show. -/
theorem Reads.display_eq (hw : ∀ r, within r → h.TextKeyed r) (hr : h.Reads .plain within t v)
    (hp : t.isPlain = true) : h.display v = t.display := by
  have hwritten := hr.written_eq hw hp
  cases t with
  | leaf u =>
    obtain ⟨rfl, -⟩ := hr
    have hv : v.isPlain = true := hp
    rw [Tree.written] at hwritten
    cases v <;> first | (cases hv; done) | simp [display, cell?, Tree.display, hwritten]
  | list ts =>
    obtain ⟨items, hi, -⟩ := hr
    obtain ⟨r, rfl, -⟩ := ref_of_items? hi
    simpa [display, cell?, read_of_items? (by decide) hi, Tree.display] using hwritten
  | map ts =>
    obtain ⟨entries, he, -⟩ := hr
    obtain ⟨r, rfl, ⟨hread, -⟩ | ⟨d, -, -, hview⟩⟩ := cell_of_entries? he
    · simpa [display, cell?, hread, Tree.display] using hwritten
    · exact absurd rfl hview

/-- Plain data go by the text that they show when they are used as a name. -/
theorem Reads.nameKey_eq (hw : ∀ r, within r → h.TextKeyed r) (hr : h.Reads .plain within t v)
    (hp : t.isPlain = true) : ∃ mark, h.nameKey v = .atom (.text t.display mark) := by
  have hdisplay := hr.display_eq hw hp
  cases v with
  | text s mark =>
    exact ⟨mark, by rw [nameKey_text, ← hdisplay]; rfl⟩
  | feature state =>
    cases t with
    | leaf u =>
      obtain ⟨rfl, -⟩ := hr
      cases hp
    | list ts =>
      obtain ⟨items, hi, -⟩ := hr
      cases hi
    | map ts =>
      obtain ⟨entries, he, -⟩ := hr
      cases he
  | _ => exact ⟨.pending, by rw [nameKey, if_neg (by simp [Value.text?]), hdisplay]; rfl⟩

end Heap

end PageMeta
