import Mathlib.Data.Fintype.Card
import PageMeta.Heap.Trees
import PageMeta.Proofs.Value.Key

/-!
# Reading trees off the heap

`Reads view within t v` says that the value `v` shows the tree `t`, and that only cells in `within`
are opened to see it.  It is the relation behind `Heap.treeTo`, without the bound on the depth and
with the cells that are read made explicit, so that a write to any other cell is seen to leave the
reading alone.

A view says which containers are opened.  A container that a view does not open has no reading in
it: a map holds no dictionary and no tuple, and plain data hold no map.

## Key results

- `Reads.agree`: heaps that agree on the cells that are opened show the same tree
- `read_push_cases`, `read_write_cases`: where a cell of a later heap comes from
- `Reads.functional`: a value shows one tree only
- `Reads.height_le`: a tree is no higher than there are cells
-/

namespace PageMeta

/-- Whether a scalar is made, as opposed to about to be made. -/
def Value.isMade : Value → Bool
  | .int _ mark | .real _ mark | .text _ mark | .bytes _ mark | .method _ _ _ mark =>
    mark != .pending
  | _ => true

/-- A value with another mark, if it is one that has a mark. -/
def Value.withMark (mark : Mark) : Value → Value
  | .int n _ => .int n mark
  | .real x _ => .real x mark
  | .text s _ => .text s mark
  | .bytes bs _ => .bytes bs mark
  | .method receiver owner name _ => .method receiver owner name mark
  | v => v

@[simp] theorem Value.text?_withMark (v : Value) (mark : Mark) :
    (v.withMark mark).text? = v.text? := by
  cases v <;> rfl

/-- Whether a cell is a list, a tuple, a dictionary or an attribute map. -/
def Cell.isContainer : Cell → Bool
  | .list _ | .tuple _ | .dict _ | .map _ => true
  | _ => false

/-- The cell behind an attribute map that holds its entries. -/
def Cell.backing? : Cell → Option Ref
  | .map (.ref d) => some d
  | _ => none

namespace Heap

/-- Which containers are opened: those of an attribute map, those a caller hands in, or those of
plain data. -/
inductive View where
  | stored
  | given
  | plain
deriving DecidableEq, Repr

/-- The items of a value that a view opens as a list. -/
def items? (h : Heap) (view : View) (v : Value) : Option (List Value) :=
  match h.cell? v with
  | some (.list items) => some items
  | some (.tuple items) => if view = .given then some items else none
  | _ => none

/-- The entries of a value that a view opens as a map. -/
def entries? (h : Heap) (view : View) (v : Value) : Option (Entries Key Value) :=
  match h.cell? v with
  | some (.dict entries) => if view = .stored then none else some entries
  | some (.map data) =>
    if view = .plain then none
    else match h.cell? data with
      | some (.dict entries) => some entries
      | _ => none
  | _ => none

/-- Whether a value is a leaf in every view: made, and no container. -/
def IsLeaf (h : Heap) (v : Value) : Prop :=
  v.isMade = true ∧ ∀ r, v = .ref r → ∃ c, h.read r = some c ∧ c.isContainer = false

/-- The cells that are read to open a value itself. -/
def own (h : Heap) : Value → List Ref
  | .ref r => r :: ((h.read r).bind Cell.backing?).toList
  | _ => []

/-- A later heap that agrees with an earlier one on some cells. -/
structure Agree (within : Ref → Prop) (h h' : Heap) : Prop where
  size_le : h.size ≤ h'.size
  read_eq : ∀ r, within r → h'.read r = h.read r

/-- A later heap that agrees with an earlier one on all its cells. -/
abbrev Extends (h h' : Heap) : Prop := Agree (fun r => r.index < h.size) h h'

/-- Whether a key reads as a text.  What a caller hands in is filed under the text of the key, which
must not depend on other cells. -/
def KeyReads (h : Heap) (view : View) (within : Ref → Prop) (key : Key) (name : String) : Prop :=
  match view with
  | .given => ∀ h', Agree (fun r => within r ∧ r.index < h.size) h h' → h'.keyText key = name
  | _ => key.text? = some name

mutual

/-- Whether a value shows a tree in a view, with only cells in `within` opened. -/
def Reads (h : Heap) (view : View) (within : Ref → Prop) : Tree String → Value → Prop
  | .leaf w, v => v = w ∧ h.IsLeaf v ∧ ∀ r ∈ h.own v, within r
  | .list ts, v => ∃ items, h.items? view v = some items ∧ (∀ r ∈ h.own v, within r) ∧
      ReadsItems h view within ts items
  | .map ts, v => ∃ entries, h.entries? view v = some entries ∧ (∀ r ∈ h.own v, within r) ∧
      entries.Apart ∧ ReadsEntries h view within ts entries

/-- `Reads`, item by item. -/
def ReadsItems (h : Heap) (view : View) (within : Ref → Prop) :
    List (Tree String) → List Value → Prop
  | [], vs => vs = []
  | t :: ts, vs => ∃ v rest, vs = v :: rest ∧ Reads h view within t v ∧
      ReadsItems h view within ts rest

/-- `Reads`, entry by entry. -/
def ReadsEntries (h : Heap) (view : View) (within : Ref → Prop) :
    List (String × Tree String) → Entries Key Value → Prop
  | [], es => es = []
  | (name, t) :: ts, es => ∃ key v rest, es = (key, v) :: rest ∧
      KeyReads h view within key name ∧ Reads h view within t v ∧
      ReadsEntries h view within ts rest

end

variable {h h' h'' : Heap} {view : View} {within wider : Ref → Prop}

theorem readsItems_iff {ts : List (Tree String)} {vs : List Value} :
    h.ReadsItems view within ts vs ↔ List.Forall₂ (h.Reads view within) ts vs := by
  induction ts generalizing vs with
  | nil => simp [ReadsItems]
  | cons t ts ih =>
    simp only [ReadsItems, List.forall₂_cons_left_iff, ih]
    constructor
    · rintro ⟨v, rest, rfl, ht, hr⟩
      exact ⟨v, rest, ht, hr, rfl⟩
    · rintro ⟨v, rest, ht, hr, rfl⟩
      exact ⟨v, rest, rfl, ht, hr⟩

theorem readsEntries_iff {ts : List (String × Tree String)} {es : Entries Key Value} :
    h.ReadsEntries view within ts es ↔
      List.Forall₂ (fun p q => h.KeyReads view within q.1 p.1 ∧ h.Reads view within p.2 q.2)
        ts es := by
  induction ts generalizing es with
  | nil => simp [ReadsEntries]
  | cons p ts ih =>
    obtain ⟨name, t⟩ := p
    simp only [ReadsEntries, List.forall₂_cons_left_iff, ih]
    constructor
    · rintro ⟨key, v, rest, rfl, hk, ht, hr⟩
      exact ⟨(key, v), rest, ⟨hk, ht⟩, hr, rfl⟩
    · rintro ⟨⟨key, v⟩, rest, ⟨hk, ht⟩, hr, rfl⟩
      exact ⟨key, v, rest, rfl, hk, ht, hr⟩

/-! ### Heaps that agree -/

namespace Agree

theorem refl (within : Ref → Prop) (h : Heap) : Agree within h h := ⟨Nat.le_refl _, fun _ _ => rfl⟩

theorem trans (h₁ : Agree within h h') (h₂ : Agree within h' h'') : Agree within h h'' :=
  ⟨Nat.le_trans h₁.size_le h₂.size_le, fun r hr => (h₂.read_eq r hr).trans (h₁.read_eq r hr)⟩

theorem mono (ha : Agree wider h h') (hw : ∀ r, within r → wider r) : Agree within h h' :=
  ⟨ha.size_le, fun r hr => ha.read_eq r (hw r hr)⟩

end Agree

/-- A cell that is there has an address below the size. -/
theorem lt_size_of_read {r : Ref} {c : Cell} (hr : h.read r = some c) : r.index < h.size := by
  by_contra hn
  have hnone : h.read r = none := Array.getElem?_eq_none (Nat.le_of_not_gt hn)
  rw [hnone] at hr
  cases hr

/-- A cell of a heap with one more cell is the new one or an old one. -/
theorem read_push_cases {c c' : Cell} {r : Ref} (hr : (h.push c).read r = some c') :
    (r = h.next ∧ c' = c) ∨ h.read r = some c' := by
  rcases Nat.lt_trichotomy r.index h.size with hlt | heq | hgt
  · exact .inr ((read_alloc_old h c r hlt).symm.trans hr)
  · have hnext : r = h.next := by cases r; exact congrArg Ref.mk heq
    subst hnext
    rw [read_alloc_new] at hr
    exact .inl ⟨rfl, (Option.some.inj hr).symm⟩
  · have hlt := lt_size_of_read hr
    rw [size_push] at hlt
    omega

/-- A cell of a heap that was written is the one that was written, or is as before. -/
theorem read_write_cases {r s : Ref} {new c : Cell} (hs : (h.write r new).read s = some c) :
    (s = r ∧ c = new) ∨ (s ≠ r ∧ h.read s = some c) := by
  by_cases heq : r = s
  · subst heq
    have hlt : r.index < h.size := by simpa using lt_size_of_read hs
    rw [read_write_self h r new hlt] at hs
    exact .inl ⟨rfl, (Option.some.inj hs).symm⟩
  · rw [read_write_of_ne h r s new heq] at hs
    exact .inr ⟨fun he => heq he.symm, hs⟩

/-- Extending a heap again extends it. -/
theorem Extends.trans (h₁ : Extends h h') (h₂ : Extends h' h'') : Extends h h'' :=
  ⟨Nat.le_trans h₁.size_le h₂.size_le, fun r hr =>
    (h₂.read_eq r (Nat.lt_of_lt_of_le hr h₁.size_le)).trans (h₁.read_eq r hr)⟩

/-- A cell stays when a heap is extended. -/
theorem Extends.read_of_some (he : Extends h h') {r : Ref} {c : Cell} (hr : h.read r = some c) :
    h'.read r = some c := (he.read_eq r (lt_size_of_read hr)).trans hr

/-- An extension agrees with the heap on the cells that are there. -/
theorem Extends.agree (he : Extends h h') (hw : ∀ r, within r → r.index < h.size) :
    Agree within h h' := Agree.mono he hw

/-! ### Opening a value -/

theorem own_ref_mem (r : Ref) : r ∈ h.own (.ref r) := List.mem_cons_self

theorem own_map_mem {r d : Ref} (hr : h.read r = some (.map (.ref d))) : d ∈ h.own (.ref r) := by
  simp [own, hr, Cell.backing?]

/-- A value opens its own cell, and the dictionary behind it if it is a map. -/
theorem mem_own_iff {v : Value} {r : Ref} :
    r ∈ h.own v ↔ v = .ref r ∨ ∃ m, v = .ref m ∧ h.read m = some (.map (.ref r)) := by
  refine ⟨fun hr => ?_, ?_⟩
  · cases v with
    | ref m =>
      refine (List.mem_cons.mp hr).imp (fun he => by rw [he]) fun hback => ⟨m, rfl, ?_⟩
      obtain ⟨c, hc, hb⟩ := Option.bind_eq_some_iff.mp (Option.mem_toList.mp hback)
      unfold Cell.backing? at hb
      split at hb
      · cases hb; exact hc
      · cases hb
    | _ => cases hr
  · rintro (rfl | ⟨m, rfl, hm⟩)
    · exact own_ref_mem r
    · exact own_map_mem hm

/-- Heaps that agree on the cells of a value open it in the same way. -/
theorem cell?_agree {v : Value} (ha : Agree within h h') (hv : ∀ r ∈ h.own v, within r) :
    h'.cell? v = h.cell? v := by
  cases v with
  | ref r => exact ha.read_eq r (hv r (own_ref_mem r))
  | _ => rfl

theorem own_agree {v : Value} (ha : Agree within h h') (hv : ∀ r ∈ h.own v, within r) :
    h'.own v = h.own v := by
  cases v with
  | ref r => simp only [own, ha.read_eq r (hv r (own_ref_mem r))]
  | _ => rfl

theorem items?_agree {v : Value} (ha : Agree within h h') (hv : ∀ r ∈ h.own v, within r) :
    h'.items? view v = h.items? view v := by simp only [items?, cell?_agree ha hv]

theorem entries?_agree {v : Value} (ha : Agree within h h') (hv : ∀ r ∈ h.own v, within r) :
    h'.entries? view v = h.entries? view v := by
  simp only [entries?, cell?_agree ha hv]
  cases hc : h.cell? v with
  | none => rfl
  | some c =>
    cases c with
    | map data =>
      cases data with
      | ref d =>
        cases v with
        | ref r =>
          have hd : h'.read d = h.read d := ha.read_eq d (hv d (own_map_mem hc))
          simp only [cell?, hd]
        | _ => cases hc
      | _ => rfl
    | _ => rfl

theorem isLeaf_agree {v : Value} (ha : Agree within h h') (hv : ∀ r ∈ h.own v, within r)
    (hl : h.IsLeaf v) : h'.IsLeaf v := by
  refine ⟨hl.1, fun r he => ?_⟩
  subst he
  rw [ha.read_eq r (hv r (own_ref_mem r))]
  exact hl.2 r rfl

theorem KeyReads.mono {key : Key} {name : String} (hk : h.KeyReads view within key name)
    (hw : ∀ r, within r → wider r) : h.KeyReads view wider key name := by
  cases view with
  | given => exact fun h' ha => hk h' (ha.mono fun r hr => ⟨hw r hr.1, hr.2⟩)
  | _ => exact hk

/-- Only what is handed in has keys whose texts depend on cells. -/
theorem KeyReads.of_ne_given {key : Key} {name : String} (hv : view ≠ .given)
    (hk : h.KeyReads view within key name) : h.KeyReads view wider key name := by
  cases view with
  | given => exact absurd rfl hv
  | _ => exact hk

/-- Attribute maps and plain data have texts as keys. -/
theorem KeyReads.text? (hv : view ≠ .given) {key : Key} {name : String}
    (hk : h.KeyReads view within key name) : key.text? = some name := by
  cases view with
  | given => exact absurd rfl hv
  | _ => exact hk

theorem KeyReads.agree {key : Key} {name : String} (hk : h.KeyReads view within key name)
    (ha : Agree within h h') : h'.KeyReads view within key name := by
  cases view with
  | given =>
    exact fun h'' ha' => hk h'' ⟨Nat.le_trans ha.size_le ha'.size_le, fun r hr =>
      (ha'.read_eq r ⟨hr.1, Nat.lt_of_lt_of_le hr.2 ha.size_le⟩).trans (ha.read_eq r hr.1)⟩
  | _ => exact hk

/-- The text of a key that is a text does not depend on the heap. -/
theorem keyText_of_text? {key : Key} {name : String} (hk : key.text? = some name) :
    h.keyText key = name := by
  cases key with
  | atom v =>
    have hv : v.text? = some name := hk
    simp [keyText, hv]
  | tuple r items => cases hk

/-- The text that a key reads as is its text. -/
theorem KeyReads.keyText_eq {key : Key} {name : String} (hk : h.KeyReads view within key name) :
    h.keyText key = name := by
  cases view with
  | given => exact hk h (Agree.refl _ _)
  | _ => exact keyText_of_text? hk

/-! ### Readings -/

mutual

/-- Opening more cells is no harm. -/
theorem Reads.mono (hw : ∀ r, within r → wider r) : ∀ {t : Tree String} {v : Value},
    h.Reads view within t v → h.Reads view wider t v
  | .leaf _, _, ⟨he, hl, ho⟩ => ⟨he, hl, fun r hr => hw r (ho r hr)⟩
  | .list _, _, ⟨items, hi, ho, hr⟩ =>
    ⟨items, hi, fun r hr => hw r (ho r hr), ReadsItems.mono hw hr⟩
  | .map _, _, ⟨entries, hi, ho, ha, hr⟩ =>
    ⟨entries, hi, fun r hr => hw r (ho r hr), ha, ReadsEntries.mono hw hr⟩

/-- `Reads.mono`, item by item. -/
theorem ReadsItems.mono (hw : ∀ r, within r → wider r) :
    ∀ {ts : List (Tree String)} {vs : List Value},
    h.ReadsItems view within ts vs → h.ReadsItems view wider ts vs
  | [], _, hr => hr
  | _ :: _, _, ⟨v, rest, he, ht, hr⟩ => ⟨v, rest, he, ht.mono hw, ReadsItems.mono hw hr⟩

/-- `Reads.mono`, entry by entry. -/
theorem ReadsEntries.mono (hw : ∀ r, within r → wider r) :
    ∀ {ts : List (String × Tree String)} {es : Entries Key Value},
    h.ReadsEntries view within ts es → h.ReadsEntries view wider ts es
  | [], _, hr => hr
  | (_, _) :: _, _, ⟨key, v, rest, he, hk, ht, hr⟩ =>
    ⟨key, v, rest, he, hk.mono hw, ht.mono hw, ReadsEntries.mono hw hr⟩

end

mutual

/-- Heaps that agree on the cells that are opened show the same tree. -/
theorem Reads.agree (ha : Agree within h h') : ∀ {t : Tree String} {v : Value},
    h.Reads view within t v → h'.Reads view within t v
  | .leaf _, v, ⟨he, hl, ho⟩ => ⟨he, isLeaf_agree ha ho hl, by rw [own_agree ha ho]; exact ho⟩
  | .list _, v, ⟨items, hi, ho, hr⟩ =>
    ⟨items, (items?_agree ha ho).trans hi, by rw [own_agree ha ho]; exact ho,
      ReadsItems.agree ha hr⟩
  | .map _, v, ⟨entries, hi, ho, hd, hr⟩ =>
    ⟨entries, (entries?_agree ha ho).trans hi, by rw [own_agree ha ho]; exact ho, hd,
      ReadsEntries.agree ha hr⟩

/-- `Reads.agree`, item by item. -/
theorem ReadsItems.agree (ha : Agree within h h') :
    ∀ {ts : List (Tree String)} {vs : List Value},
    h.ReadsItems view within ts vs → h'.ReadsItems view within ts vs
  | [], _, hr => hr
  | _ :: _, _, ⟨v, rest, he, ht, hr⟩ => ⟨v, rest, he, ht.agree ha, ReadsItems.agree ha hr⟩

/-- `Reads.agree`, entry by entry. -/
theorem ReadsEntries.agree (ha : Agree within h h') :
    ∀ {ts : List (String × Tree String)} {es : Entries Key Value},
    h.ReadsEntries view within ts es → h'.ReadsEntries view within ts es
  | [], _, hr => hr
  | (_, _) :: _, _, ⟨key, v, rest, he, hk, ht, hr⟩ =>
    ⟨key, v, rest, he, hk.agree ha, ht.agree ha, ReadsEntries.agree ha hr⟩

end

/-- A leaf is opened by no view. -/
theorem IsLeaf.items?_eq_none {v : Value} (hl : h.IsLeaf v) : h.items? view v = none := by
  cases v with
  | ref r =>
    obtain ⟨c, hc, hn⟩ := hl.2 r rfl
    cases c <;> first | (cases hn; done) | simp [items?, cell?, hc]
  | _ => rfl

theorem IsLeaf.entries?_eq_none {v : Value} (hl : h.IsLeaf v) : h.entries? view v = none := by
  cases v with
  | ref r =>
    obtain ⟨c, hc, hn⟩ := hl.2 r rfl
    cases c <;> first | (cases hn; done) | simp [entries?, cell?, hc]
  | _ => rfl

/-- What is opened as a list is not opened as a map. -/
theorem entries?_eq_none_of_items? {v : Value} {items : List Value}
    (hi : h.items? view v = some items) : h.entries? view v = none := by
  unfold items? at hi
  unfold entries?
  split at hi
  · rename_i hc; rw [hc]
  · rename_i hc; rw [hc]
  · cases hi

/-- What is opened as a list shows a list. -/
theorem Reads.list_of_items? {t : Tree String} {v : Value} {items : List Value}
    (hr : h.Reads view within t v) (hi : h.items? view v = some items) :
    ∃ ts, t = .list ts ∧ h.ReadsItems view within ts items := by
  cases t with
  | leaf u => rw [hr.2.1.items?_eq_none] at hi; cases hi
  | list ts =>
    obtain ⟨items', hi', -, hts⟩ := hr
    rw [hi] at hi'
    cases hi'
    exact ⟨ts, rfl, hts⟩
  | map ts =>
    obtain ⟨entries, he, -⟩ := hr
    rw [entries?_eq_none_of_items? hi] at he
    cases he

/-- What is opened as a map shows a map. -/
theorem Reads.map_of_entries? {t : Tree String} {v : Value} {entries : Entries Key Value}
    (hr : h.Reads view within t v) (he : h.entries? view v = some entries) :
    ∃ ts, t = .map ts ∧ entries.Apart ∧ h.ReadsEntries view within ts entries := by
  cases t with
  | leaf u => rw [hr.2.1.entries?_eq_none] at he; cases he
  | list ts =>
    obtain ⟨items, hi, -⟩ := hr
    rw [entries?_eq_none_of_items? hi] at he
    cases he
  | map ts =>
    obtain ⟨entries', he', -, ha, hts⟩ := hr
    rw [he] at he'
    cases he'
    exact ⟨ts, rfl, ha, hts⟩

mutual

/-- A value shows one tree only. -/
theorem Reads.functional : ∀ {t u : Tree String} {v : Value},
    h.Reads view within t v → h.Reads view wider u v → t = u
  | .leaf _, .leaf _, _, ⟨he, _, _⟩, ⟨he', _, _⟩ => by rw [← he, ← he']
  | .leaf _, .list _, _, ⟨_, hl, _⟩, ⟨_, hi, _⟩ => by rw [hl.items?_eq_none] at hi; cases hi
  | .leaf _, .map _, _, ⟨_, hl, _⟩, ⟨_, hi, _⟩ => by rw [hl.entries?_eq_none] at hi; cases hi
  | .list _, .leaf _, _, ⟨_, hi, _⟩, ⟨_, hl, _⟩ => by rw [hl.items?_eq_none] at hi; cases hi
  | .list _, .list _, _, ⟨_, hi, _, hr⟩, ⟨_, hi', _, hr'⟩ => by
    rw [hi] at hi'
    cases hi'
    rw [ReadsItems.functional hr hr']
  | .list _, .map _, _, ⟨_, hi, _⟩, ⟨_, hi', _⟩ => by
    rw [entries?_eq_none_of_items? hi] at hi'
    cases hi'
  | .map _, .leaf _, _, ⟨_, hi, _⟩, ⟨_, hl, _⟩ => by rw [hl.entries?_eq_none] at hi; cases hi
  | .map _, .list _, _, ⟨_, hi, _⟩, ⟨_, hi', _⟩ => by
    rw [entries?_eq_none_of_items? hi'] at hi
    cases hi
  | .map _, .map _, _, ⟨_, hi, _, _, hr⟩, ⟨_, hi', _, _, hr'⟩ => by
    rw [hi] at hi'
    cases hi'
    rw [ReadsEntries.functional hr hr']

/-- `Reads.functional`, item by item. -/
theorem ReadsItems.functional : ∀ {ts us : List (Tree String)} {vs : List Value},
    h.ReadsItems view within ts vs → h.ReadsItems view wider us vs → ts = us
  | [], [], _, _, _ => rfl
  | [], _ :: _, _, he, ⟨_, _, he', _⟩ => by rw [ReadsItems] at he; rw [he] at he'; cases he'
  | _ :: _, [], _, ⟨_, _, he', _⟩, he => by rw [ReadsItems] at he; rw [he] at he'; cases he'
  | _ :: _, _ :: _, _, ⟨_, _, he, ht, hr⟩, ⟨_, _, he', ht', hr'⟩ => by
    rw [he] at he'
    cases he'
    rw [Reads.functional ht ht', ReadsItems.functional hr hr']

/-- `Reads.functional`, entry by entry. -/
theorem ReadsEntries.functional : ∀ {ts us : List (String × Tree String)} {es : Entries Key Value},
    h.ReadsEntries view within ts es → h.ReadsEntries view wider us es → ts = us
  | [], [], _, _, _ => rfl
  | [], _ :: _, _, he, ⟨_, _, _, he', _⟩ => by rw [ReadsEntries] at he; rw [he] at he'; cases he'
  | _ :: _, [], _, ⟨_, _, _, he', _⟩, he => by rw [ReadsEntries] at he; rw [he] at he'; cases he'
  | (_, _) :: _, (_, _) :: _, _, ⟨_, _, _, he, hk, ht, hr⟩, ⟨_, _, _, he', hk', ht', hr'⟩ => by
    rw [he] at he'
    cases he'
    rw [← hk.keyText_eq, ← hk'.keyText_eq, Reads.functional ht ht', ReadsEntries.functional hr hr']

end

/-! ### Views -/

/-- What another view opens is opened in the same way for what a caller hands in. -/
theorem items?_given {v : Value} {items : List Value} (hi : h.items? view v = some items) :
    h.items? .given v = some items := by
  unfold items? at hi ⊢
  split at hi <;> simp_all

theorem entries?_given {v : Value} {entries : Entries Key Value}
    (hi : h.entries? view v = some entries) : h.entries? .given v = some entries := by
  unfold entries? at hi ⊢
  split at hi
  · split at hi
    · cases hi
    · simpa using hi
  · split at hi
    · cases hi
    · simpa using hi
  · cases hi

theorem KeyReads.given {key : Key} {name : String} (hk : h.KeyReads view within key name) :
    h.KeyReads .given within key name := by
  cases view with
  | given => exact hk
  | _ => exact fun _ _ => keyText_of_text? hk

mutual

/-- A map and plain data show the same tree when they are handed in. -/
theorem Reads.given : ∀ {t : Tree String} {v : Value},
    h.Reads view within t v → h.Reads .given within t v
  | .leaf _, _, hl => hl
  | .list _, _, ⟨items, hi, ho, hr⟩ => ⟨items, items?_given hi, ho, ReadsItems.given hr⟩
  | .map _, _, ⟨entries, hi, ho, ha, hr⟩ =>
    ⟨entries, entries?_given hi, ho, ha, ReadsEntries.given hr⟩

/-- `Reads.given`, item by item. -/
theorem ReadsItems.given : ∀ {ts : List (Tree String)} {vs : List Value},
    h.ReadsItems view within ts vs → h.ReadsItems .given within ts vs
  | [], _, hr => hr
  | _ :: _, _, ⟨v, rest, he, ht, hr⟩ => ⟨v, rest, he, ht.given, ReadsItems.given hr⟩

/-- `Reads.given`, entry by entry. -/
theorem ReadsEntries.given : ∀ {ts : List (String × Tree String)} {es : Entries Key Value},
    h.ReadsEntries view within ts es → h.ReadsEntries .given within ts es
  | [], _, hr => hr
  | (_, _) :: _, _, ⟨key, v, rest, he, hk, ht, hr⟩ =>
    ⟨key, v, rest, he, hk.given, ht.given, ReadsEntries.given hr⟩

end

/-! ### Height -/

/-- What is a cell is its address. -/
theorem ref_of_cell? {v : Value} {c : Cell} (hv : h.cell? v = some c) : ∃ r, v = .ref r := by
  cases v <;> first | exact ⟨_, rfl⟩ | cases hv

/-- What is opened is a cell. -/
theorem ref_of_items? {v : Value} {items : List Value} (hi : h.items? view v = some items) :
    ∃ r, v = .ref r ∧ r.index < h.size := by
  cases v with
  | ref r =>
    refine ⟨r, rfl, ?_⟩
    unfold items? cell? at hi
    split at hi
    · rename_i hc; exact lt_size_of_read hc
    · rename_i hc; exact lt_size_of_read hc
    · cases hi
  | _ => cases hi

/-- What is opened as a list, unless it is given, is a list. -/
theorem read_of_items? {r : Ref} {items : List Value} (hview : view ≠ .given)
    (hi : h.items? view (.ref r) = some items) : h.read r = some (.list items) := by
  unfold items? cell? at hi
  split at hi <;> simp_all

theorem ref_of_entries? {v : Value} {entries : Entries Key Value}
    (hi : h.entries? view v = some entries) : ∃ r, v = .ref r ∧ r.index < h.size := by
  cases v with
  | ref r =>
    refine ⟨r, rfl, ?_⟩
    unfold entries? at hi
    split at hi
    · rename_i hc; exact lt_size_of_read (r := r) hc
    · rename_i hc; exact lt_size_of_read (r := r) hc
    · cases hi
  | _ => cases hi

mutual

/-- Below a tree there is a cell that shows a tree of each smaller height. -/
theorem Reads.exists_of_le_height : ∀ {t : Tree String} {v : Value},
    h.Reads view within t v → ∀ n, 0 < n → n ≤ t.height →
      ∃ r u, r.index < h.size ∧ h.Reads view within u (.ref r) ∧ u.height = n
  | .leaf _, _, _, n, hp, hn => absurd hp (Nat.not_lt.mpr hn)
  | .list ts, v, hr@⟨items, hi, _, hts⟩, n, hp, hn => by
    obtain ⟨r, rfl, hlt⟩ := ref_of_items? hi
    rcases Nat.lt_or_ge n (Tree.list ts).height with hlow | htop
    · exact ReadsItems.exists_of_le_height hts n hp (Nat.le_of_lt_succ hlow)
    · exact ⟨r, .list ts, hlt, hr, Nat.le_antisymm htop hn⟩
  | .map ts, v, hr@⟨entries, hi, _, _, hts⟩, n, hp, hn => by
    obtain ⟨r, rfl, hlt⟩ := ref_of_entries? hi
    rcases Nat.lt_or_ge n (Tree.map ts).height with hlow | htop
    · exact ReadsEntries.exists_of_le_height hts n hp (Nat.le_of_lt_succ hlow)
    · exact ⟨r, .map ts, hlt, hr, Nat.le_antisymm htop hn⟩

/-- `Reads.exists_of_le_height` for the highest tree of a list. -/
theorem ReadsItems.exists_of_le_height : ∀ {ts : List (Tree String)} {vs : List Value},
    h.ReadsItems view within ts vs → ∀ n, 0 < n → n ≤ Tree.heightList ts →
      ∃ r u, r.index < h.size ∧ h.Reads view within u (.ref r) ∧ u.height = n
  | [], _, _, n, hp, hn => absurd hp (Nat.not_lt.mpr hn)
  | t :: ts, _, ⟨_, _, _, ht, hts⟩, n, hp, hn => by
    rcases le_max_iff.mp hn with hhead | hrest
    · exact ht.exists_of_le_height n hp hhead
    · exact ReadsItems.exists_of_le_height hts n hp hrest

/-- `Reads.exists_of_le_height` for the highest value of entries. -/
theorem ReadsEntries.exists_of_le_height : ∀ {ts : List (String × Tree String)}
    {es : Entries Key Value},
    h.ReadsEntries view within ts es → ∀ n, 0 < n → n ≤ Tree.heightEntries ts →
      ∃ r u, r.index < h.size ∧ h.Reads view within u (.ref r) ∧ u.height = n
  | [], _, _, n, hp, hn => absurd hp (Nat.not_lt.mpr hn)
  | (_, t) :: ts, _, ⟨_, _, _, _, _, ht, hts⟩, n, hp, hn => by
    rcases le_max_iff.mp hn with hhead | hrest
    · exact ht.exists_of_le_height n hp hhead
    · exact ReadsEntries.exists_of_le_height hts n hp hrest

end

/-- There are no more levels than cells, if there is a cell on each level and none on two of them. -/
theorem le_size_of_levels (level : Ref → Nat → Prop) {n : Nat}
    (hcell : ∀ k, 0 < k → k ≤ n → ∃ r, r.index < h.size ∧ level r k)
    (hone : ∀ r k l, level r k → level r l → k = l) : n ≤ h.size := by
  have hcell' : ∀ k : Fin n, ∃ r : Fin h.size, level ⟨r⟩ (k + 1) := fun k => by
    obtain ⟨r, hlt, hr⟩ := hcell (k + 1) (Nat.succ_pos _) k.isLt
    exact ⟨⟨r.index, hlt⟩, hr⟩
  choose cell hlevel using hcell'
  have hinj : Function.Injective cell := fun k l he => by
    have hl := hlevel l
    rw [← he] at hl
    exact Fin.ext (Nat.succ.inj (hone _ _ _ (hlevel k) hl))
  simpa using Fintype.card_le_of_injective cell hinj

/-- A tree is no higher than there are cells: cells that show trees of different heights are
different. -/
theorem Reads.height_le {t : Tree String} {v : Value} (hr : h.Reads view within t v) :
    t.height ≤ h.size := by
  refine le_size_of_levels (fun r k => ∃ u, h.Reads view within u (.ref r) ∧ u.height = k)
    (fun k hpos hk => ?_) fun r k l => ?_
  · obtain ⟨r, u, hlt, hu⟩ := hr.exists_of_le_height k hpos hk
    exact ⟨r, hlt, u, hu⟩
  · rintro ⟨u, hu, rfl⟩ ⟨u', hu', rfl⟩
    rw [hu.functional hu']

end Heap

end PageMeta
