import PageMeta.Proofs.Heap.Reading
import PageMeta.Proofs.Tree.Normal

/-!
# Copying trees

Copying into an attribute map and out of it reads a tree and builds it from new cells.  Here both
halves are tied to `Reads`: what is read off a value is the tree that it shows, in normal form, and
what is built shows the tree that it is built from, with no cell of the heap opened that could
change.

## Key results

- `Reads.tree`: the tree that is read is the tree that is shown, in normal form
- `settle_withMark`: making a scalar chooses its mark
- `build_reads`: a built value shows its tree, and all old cells stay
- `wrap_reads`, `unwrap_reads`: what a copy into an attribute map, or out of it, shows
-/

namespace PageMeta

namespace Tree

mutual

/-- Whether a tree has the names of another as keys, and its leaves, which all satisfy `P`. -/
def Named (P : Value → Prop) : Tree Key → Tree String → Prop
  | .leaf v, t => t = .leaf v ∧ P v
  | .list ts, t => ∃ us, t = .list us ∧ NamedItems P ts us
  | .map es, t => ∃ us, t = .map us ∧ NamedEntries P es us

/-- `Named`, item by item. -/
def NamedItems (P : Value → Prop) : List (Tree Key) → List (Tree String) → Prop
  | [], us => us = []
  | t :: ts, us => ∃ u rest, us = u :: rest ∧ Named P t u ∧ NamedItems P ts rest

/-- `Named`, entry by entry. -/
def NamedEntries (P : Value → Prop) :
    List (Key × Tree Key) → List (String × Tree String) → Prop
  | [], us => us = []
  | (key, t) :: ts, us => ∃ name u rest, us = (name, u) :: rest ∧ key.text? = some name ∧
      Named P t u ∧ NamedEntries P ts rest

end

theorem namedEntries_iff {P : Value → Prop} {ts : Entries Key (Tree Key)}
    {us : Entries String (Tree String)} :
    NamedEntries P ts us ↔ Entries.Match (fun _ u t => Named P t u) us ts := by
  induction ts generalizing us with
  | nil => simp [NamedEntries, Entries.Match]
  | cons p ts ih =>
    obtain ⟨key, t⟩ := p
    simp only [NamedEntries, Entries.Match, List.forall₂_cons_right_iff, ih]
    constructor
    · rintro ⟨name, u, rest, rfl, hk, ht, hr⟩
      exact ⟨(name, u), rest, ⟨hk, ht⟩, hr, rfl⟩
    · rintro ⟨⟨name, u⟩, rest, ⟨hk, ht⟩, hr, rfl⟩
      exact ⟨name, u, rest, rfl, hk, ht, hr⟩

mutual

/-- A tree stays named when its leaves satisfy more. -/
theorem Named.imp {P Q : Value → Prop} (hq : ∀ {v}, P v → Q v) : ∀ {u : Tree Key} {t : Tree String},
    u.Named P t → u.Named Q t
  | .leaf _, _, ⟨he, hp⟩ => ⟨he, hq hp⟩
  | .list _, _, ⟨ts, he, hu⟩ => ⟨ts, he, NamedItems.imp hq hu⟩
  | .map _, _, ⟨ts, he, hu⟩ => ⟨ts, he, NamedEntries.imp hq hu⟩

/-- `Named.imp`, item by item. -/
theorem NamedItems.imp {P Q : Value → Prop} (hq : ∀ {v}, P v → Q v) :
    ∀ {us : List (Tree Key)} {ts : List (Tree String)}, NamedItems P us ts → NamedItems Q us ts
  | [], _, he => he
  | _ :: _, _, ⟨t, ts, he, hu, hus⟩ => ⟨t, ts, he, hu.imp hq, NamedItems.imp hq hus⟩

/-- `Named.imp`, entry by entry. -/
theorem NamedEntries.imp {P Q : Value → Prop} (hq : ∀ {v}, P v → Q v) :
    ∀ {us : List (Key × Tree Key)} {ts : List (String × Tree String)},
    NamedEntries P us ts → NamedEntries Q us ts
  | [], _, he => he
  | (_, _) :: _, _, ⟨name, t, ts, he, hk, hu, hus⟩ =>
    ⟨name, t, ts, he, hk, hu.imp hq, NamedEntries.imp hq hus⟩

end

end Tree

namespace Heap

variable {h h' h'' : Heap} {view : View} {within : Ref → Prop}

/-- No container of the heap stands at an address: it is new, or that of another kind of cell. -/
def Vacant (h : Heap) (r : Ref) : Prop := ∀ c, h.read r = some c → c.isContainer = false

theorem vacant_of_size_le {r : Ref} (hr : h.size ≤ r.index) : h.Vacant r := fun _ hc =>
  absurd (lt_size_of_read hc) (Nat.not_lt.mpr hr)

theorem Vacant.of_extends {r : Ref} (he : Extends h h') (hv : h'.Vacant r) : h.Vacant r :=
  fun c hc => hv c (he.read_of_some hc)

/-! ### What is opened is there -/

theorem own_lt_of_items? {v : Value} {items : List Value} (hi : h.items? view v = some items) :
    ∀ s ∈ h.own v, s.index < h.size := by
  obtain ⟨r, rfl, hlt⟩ := ref_of_items? hi
  unfold items? cell? at hi
  split at hi <;> simp_all [own, Cell.backing?]

/-- What a view opens as a map is a dictionary, or an attribute map over one. -/
theorem cell_of_entries? {v : Value} {entries : Entries Key Value}
    (hi : h.entries? view v = some entries) :
    ∃ r, v = .ref r ∧ ((h.read r = some (.dict entries) ∧ view ≠ .stored) ∨
      ∃ d, h.read r = some (.map (.ref d)) ∧ h.read d = some (.dict entries) ∧
        view ≠ .plain) := by
  obtain ⟨r, rfl, -⟩ := ref_of_entries? hi
  refine ⟨r, rfl, ?_⟩
  unfold entries? at hi
  split at hi
  · rename_i hc
    split at hi
    · cases hi
    · rename_i hv; cases hi; exact .inl ⟨hc, hv⟩
  · rename_i data hc
    split at hi
    · cases hi
    · rename_i hv
      split at hi
      · rename_i hd
        cases hi
        cases data with
        | ref d => exact .inr ⟨d, hc, hd, hv⟩
        | _ => cases hd
      · cases hi
  · cases hi

theorem own_lt_of_entries? {v : Value} {entries : Entries Key Value}
    (hi : h.entries? view v = some entries) : ∀ s ∈ h.own v, s.index < h.size := by
  obtain ⟨r, rfl, ⟨hr, -⟩ | ⟨d, hr, hd, -⟩⟩ := cell_of_entries? hi
  · simp [own, hr, Cell.backing?, lt_size_of_read hr]
  · simp [own, hr, Cell.backing?, lt_size_of_read hr, lt_size_of_read hd]

theorem IsLeaf.own_lt {v : Value} (hl : h.IsLeaf v) : ∀ s ∈ h.own v, s.index < h.size := by
  cases v with
  | ref r =>
    obtain ⟨c, hc, hn⟩ := hl.2 r rfl
    have hlt := lt_size_of_read hc
    cases c <;> first | (cases hn; done) | simp [own, hc, Cell.backing?, hlt]
  | _ => simp [own]

/-- The cells of a leaf are vacant. -/
theorem IsLeaf.own_vacant {v : Value} (hl : h.IsLeaf v) : ∀ s ∈ h.own v, h.Vacant s := by
  cases v with
  | ref r =>
    obtain ⟨c, hc, hn⟩ := hl.2 r rfl
    have hv : h.Vacant r := fun c' hc' => by rw [hc] at hc'; cases hc'; exact hn
    cases c <;> first | (cases hn; done) | simpa [own, hc, Cell.backing?] using hv
  | _ => simp [own]

theorem KeyReads.allocated {key : Key} {name : String} (hk : h.KeyReads view within key name) :
    h.KeyReads view (fun r => within r ∧ r.index < h.size) key name := by
  cases view with
  | given => exact fun h' ha => hk h' (ha.mono fun r hr => ⟨hr, hr.2⟩)
  | _ => exact hk

mutual

/-- The cells that are opened are there. -/
theorem Reads.allocated : ∀ {t : Tree String} {v : Value}, h.Reads view within t v →
    h.Reads view (fun r => within r ∧ r.index < h.size) t v
  | .leaf _, _, ⟨he, hl, ho⟩ => ⟨he, hl, fun r hr => ⟨ho r hr, hl.own_lt r hr⟩⟩
  | .list _, _, ⟨items, hi, ho, hr⟩ =>
    ⟨items, hi, fun r hr => ⟨ho r hr, own_lt_of_items? hi r hr⟩, ReadsItems.allocated hr⟩
  | .map _, _, ⟨entries, hi, ho, ha, hr⟩ =>
    ⟨entries, hi, fun r hr => ⟨ho r hr, own_lt_of_entries? hi r hr⟩, ha,
      ReadsEntries.allocated hr⟩

/-- `Reads.allocated`, item by item. -/
theorem ReadsItems.allocated : ∀ {ts : List (Tree String)} {vs : List Value},
    h.ReadsItems view within ts vs →
    h.ReadsItems view (fun r => within r ∧ r.index < h.size) ts vs
  | [], _, hr => hr
  | _ :: _, _, ⟨v, rest, he, ht, hr⟩ => ⟨v, rest, he, ht.allocated, ReadsItems.allocated hr⟩

/-- `Reads.allocated`, entry by entry. -/
theorem ReadsEntries.allocated : ∀ {ts : List (String × Tree String)} {es : Entries Key Value},
    h.ReadsEntries view within ts es →
    h.ReadsEntries view (fun r => within r ∧ r.index < h.size) ts es
  | [], _, hr => hr
  | (_, _) :: _, _, ⟨key, v, rest, he, hk, ht, hr⟩ =>
    ⟨key, v, rest, he, hk.allocated, ht.allocated, ReadsEntries.allocated hr⟩

end

/-- The cells of a value that shows a tree are there. -/
theorem Reads.own_lt {t : Tree String} {v : Value} (hr : h.Reads view within t v) :
    ∀ r ∈ h.own v, r.index < h.size := by
  cases t with
  | leaf w => exact hr.2.1.own_lt
  | list ts => obtain ⟨items, hi, -⟩ := hr; exact own_lt_of_items? hi
  | map ts => obtain ⟨entries, he, -⟩ := hr; exact own_lt_of_entries? he

/-- What a value shows stays when the heap is extended. -/
theorem Reads.extends {t : Tree String} {v : Value} (hr : h.Reads view within t v)
    (he : Extends h h') : h'.Reads view within t v :=
  (hr.allocated.agree (he.agree fun _ hw => hw.2)).mono fun _ hw => hw.1

theorem ReadsItems.extends {ts : List (Tree String)} {vs : List Value}
    (hr : h.ReadsItems view within ts vs) (he : Extends h h') :
    h'.ReadsItems view within ts vs :=
  ReadsItems.mono (fun _ hw => hw.1) (ReadsItems.agree (he.agree fun _ hw => hw.2) hr.allocated)

theorem ReadsEntries.extends {ts : List (String × Tree String)} {es : Entries Key Value}
    (hr : h.ReadsEntries view within ts es) (he : Extends h h') :
    h'.ReadsEntries view within ts es :=
  ReadsEntries.mono (fun _ hw => hw.1)
    (ReadsEntries.agree (he.agree fun _ hw => hw.2) hr.allocated)

theorem IsLeaf.extends {v : Value} (hl : h.IsLeaf v) (he : Extends h h') : h'.IsLeaf v :=
  isLeaf_agree (he.agree hl.own_lt) (fun _ hr => hr) hl

/-! ### Reading trees -/

/-- What a reading opens. -/
def Reading.opened : Reading → View
  | .given => .given
  | .stored => .stored

theorem dict?_of_dict {r : Ref} {entries : Entries Key Value}
    (hr : h.read r = some (.dict entries)) : h.dict? r = some (r, entries) := by
  simp [dict?, depth, dictTo, hr]

theorem dict?_of_map {r d : Ref} {entries : Entries Key Value}
    (hr : h.read r = some (.map (.ref d))) (hd : h.read d = some (.dict entries)) :
    h.dict? r = some (d, entries) := by
  obtain ⟨n, hn⟩ : ∃ n, h.depth = n + 2 := ⟨h.size - 1, by
    have hs := lt_size_of_read hr
    simp only [depth]; omega⟩
  simp [dict?, hn, dictTo, hr, hd]

/-- The dictionary behind a mapping is a cell. -/
theorem read_of_dictTo : ∀ (n : Nat) {r d : Ref} {entries : Entries Key Value},
    h.dictTo n r = some (d, entries) → h.read d = some (.dict entries)
  | 0, _, _, _, hd => by cases hd
  | n + 1, r, d, entries, hd => by
    rw [dictTo] at hd
    split at hd
    · rename_i hr
      cases hd
      exact hr
    · exact read_of_dictTo n hd
    · cases hd

theorem read_of_dict? {r d : Ref} {entries : Entries Key Value}
    (hd : h.dict? r = some (d, entries)) : h.read d = some (.dict entries) :=
  read_of_dictTo _ hd

/-- The entries that a view opens are those of the dictionary behind the value. -/
theorem dict?_of_entries? {r : Ref} {entries : Entries Key Value}
    (hi : h.entries? view (.ref r) = some entries) : ∃ d, h.dict? r = some (d, entries) := by
  obtain ⟨_, he, ⟨hr, -⟩ | ⟨d, hr, hd, -⟩⟩ := cell_of_entries? hi <;> cases he
  · exact ⟨r, dict?_of_dict hr⟩
  · exact ⟨d, dict?_of_map hr hd⟩

theorem entriesAt_of_entries? {r : Ref} {entries : Entries Key Value}
    (hi : h.entries? view (.ref r) = some entries) : h.entriesAt r = entries := by
  obtain ⟨d, hd⟩ := dict?_of_entries? hi
  rw [entriesAt, hd]
  rfl

/-- A leaf is read as a leaf. -/
theorem treeTo_of_isLeaf {v : Value} (reading : Reading) (n : Nat) (hl : h.IsLeaf v) :
    h.treeTo reading (n + 1) v = .ok (.leaf v) := by
  cases v with
  | ref r =>
    obtain ⟨c, hc, hn⟩ := hl.2 r rfl
    cases c <;> first | (cases hn; done) | (cases reading <;> simp [treeTo, cell?, hc])
  | _ => cases reading <;> rfl

/-- Items are read one by one. -/
theorem treeTo_of_items? {v : Value} {items : List Value} (reading : Reading) (n : Nat)
    (hi : h.items? reading.opened v = some items) :
    h.treeTo reading (n + 1) v = .list <$> items.mapM (h.treeTo reading n) := by
  obtain ⟨r, rfl, -⟩ := ref_of_items? hi
  unfold items? cell? at hi
  split at hi
  · rename_i hc; cases hi; cases reading <;> simp [treeTo, cell?, hc]
  · rename_i hc
    cases reading with
    | given => cases hi; simp [treeTo, cell?, hc]
    | stored => cases hi
  · cases hi

/-- The entries of an attribute map are read with their keys. -/
theorem treeTo_stored_of_entries? {v : Value} {entries : Entries Key Value} (n : Nat)
    (hi : h.entries? .stored v = some entries) :
    h.treeTo .stored (n + 1) v =
      .map <$> entries.mapM fun p => do return (p.1, ← h.treeTo .stored n p.2) := by
  obtain ⟨r, rfl, ⟨-, hv⟩ | ⟨d, hr, hd, -⟩⟩ := cell_of_entries? hi
  · exact absurd rfl hv
  · simp only [treeTo, cell?, hr, items, dict?_of_map hr hd]
    rfl

/-- The entries of a mapping that is handed in are read with the texts of their keys, and written
one after the other. -/
theorem treeTo_given_of_entries? {v : Value} {entries : Entries Key Value} (n : Nat)
    (hi : h.entries? .given v = some entries) :
    h.treeTo .given (n + 1) v = (fun read => .map (Entries.ofList read)) <$>
      entries.mapM fun p => do return (h.keyName p.1, ← h.treeTo .given n p.2) := by
  obtain ⟨r, rfl, ⟨hr, -⟩ | ⟨d, hr, hd, -⟩⟩ := cell_of_entries? hi
  · simp only [treeTo, cell?, hr, items, dict?_of_dict hr]
    rfl
  · simp only [treeTo, cell?, hr, items, dict?_of_map hr hd]
    rfl

/-- The key under which a key is filed is the text of the key. -/
theorem text?_keyName (key : Key) : (h.keyName key).text? = some (h.keyText key) := by
  cases key with
  | tuple r items => rfl
  | atom v =>
    cases hv : v.text? with
    | some s => simp [keyName, nameKey, keyText, hv, Key.text?]
    | none => simp only [keyName, nameKey, keyText, hv]; rfl

/-- The entries of attribute maps and of plain data match those of the trees that they show. -/
theorem ReadsEntries.matched (hv : view ≠ .given) {ts : List (String × Tree String)}
    {es : Entries Key Value} (hr : h.ReadsEntries view within ts es) :
    Entries.Match (fun _ t v => h.Reads view within t v) ts es := by
  cases view with
  | given => exact absurd rfl hv
  | _ => exact readsEntries_iff.mp hr

/-- Attribute maps and plain data have each name once. -/
theorem nodup_of_ne_given (hv : view ≠ .given) {ts : List (String × Tree String)}
    {es : Entries Key Value} (ha : es.Apart) (hr : h.ReadsEntries view within ts es) :
    (Entries.keys ts).Nodup := (hr.matched hv).apart_iff.mp ha

mutual

/-- Attribute maps and plain data have each name once at every level. -/
theorem Reads.distinct (hv : view ≠ .given) : ∀ {t : Tree String} {v : Value},
    h.Reads view within t v → t.Distinct
  | .leaf _, _, _ => trivial
  | .list _, _, ⟨_, _, _, hr⟩ => ReadsItems.distinct hv hr
  | .map _, _, ⟨_, _, _, ha, hr⟩ => ⟨nodup_of_ne_given hv ha hr, ReadsEntries.distinct hv hr⟩

/-- `Reads.distinct`, item by item. -/
theorem ReadsItems.distinct (hv : view ≠ .given) : ∀ {ts : List (Tree String)} {vs : List Value},
    h.ReadsItems view within ts vs → Tree.DistinctList ts
  | [], _, _ => trivial
  | _ :: _, _, ⟨_, _, _, ht, hr⟩ => ⟨ht.distinct hv, ReadsItems.distinct hv hr⟩

/-- `Reads.distinct`, entry by entry. -/
theorem ReadsEntries.distinct (hv : view ≠ .given) : ∀ {ts : List (String × Tree String)}
    {es : Entries Key Value}, h.ReadsEntries view within ts es → Tree.DistinctEntries ts
  | [], _, _ => trivial
  | (_, _) :: _, _, ⟨_, _, _, _, _, ht, hr⟩ => ⟨ht.distinct hv, ReadsEntries.distinct hv hr⟩

end

mutual

/-- The tree that is read off a value is the tree that it shows, in normal form. -/
theorem Reads.treeTo (reading : Reading) : ∀ {t : Tree String} {v : Value},
    h.Reads reading.opened within t v → ∀ {n : Nat}, t.height < n →
      ∃ u, h.treeTo reading n v = .ok u ∧ u.Named h.IsLeaf t.norm
  | .leaf _, v, ⟨he, hl, _⟩, n + 1, _ => by
    subst he
    exact ⟨.leaf v, treeTo_of_isLeaf reading n hl, rfl, hl⟩
  | .list ts, v, ⟨items, hi, _, hr⟩, n + 1, hn => by
    obtain ⟨us, hus, hnamed⟩ := ReadsItems.treeTo reading hr (Nat.lt_of_succ_lt_succ hn)
    refine ⟨.list us, ?_, Tree.normList ts, rfl, hnamed⟩
    rw [treeTo_of_items? reading n hi, hus]
    rfl
  | .map ts, v, ⟨entries, hi, _, ha, hr⟩, n + 1, hn => by
    cases reading with
    | given =>
      obtain ⟨us, hus, hnamed⟩ := ReadsEntries.treeTo_given hr (Nat.lt_of_succ_lt_succ hn)
      refine ⟨.map (Entries.ofList us), ?_, _, rfl, ?_⟩
      · rw [treeTo_given_of_entries? n hi, hus]
        rfl
      · exact Tree.namedEntries_iff.mpr (Tree.namedEntries_iff.mp hnamed).ofList
    | stored =>
      obtain ⟨us, hus, hnamed⟩ := ReadsEntries.treeTo_stored hr (Nat.lt_of_succ_lt_succ hn)
      refine ⟨.map us, ?_, _, rfl, ?_⟩
      · rw [treeTo_stored_of_entries? n hi, hus]
        rfl
      · -- no name comes twice, so writing the entries one after the other gives them back
        rwa [Entries.ofList_eq_self]
        rw [Tree.keys_normEntries]
        exact nodup_of_ne_given (by decide) ha hr

/-- `Reads.treeTo`, item by item. -/
theorem ReadsItems.treeTo (reading : Reading) : ∀ {ts : List (Tree String)} {vs : List Value},
    h.ReadsItems reading.opened within ts vs → ∀ {n : Nat}, Tree.heightList ts < n →
      ∃ us, vs.mapM (h.treeTo reading n) = .ok us ∧
        Tree.NamedItems h.IsLeaf us (Tree.normList ts)
  | [], _, hr, n, _ => by
    rw [ReadsItems] at hr
    subst hr
    exact ⟨[], rfl, rfl⟩
  | t :: ts, _, ⟨v, rest, he, ht, hr⟩, n, hn => by
    subst he
    obtain ⟨u, hu, hnamed⟩ := ht.treeTo reading (lt_of_le_of_lt (le_max_left _ _) hn)
    obtain ⟨us, hus, hnameds⟩ := ReadsItems.treeTo reading hr (lt_of_le_of_lt (le_max_right _ _) hn)
    refine ⟨u :: us, ?_, _, _, rfl, hnamed, hnameds⟩
    rw [List.mapM_cons, hu, hus]
    rfl

/-- `Reads.treeTo` for the entries of a mapping that is handed in. -/
theorem ReadsEntries.treeTo_given : ∀ {ts : List (String × Tree String)} {es : Entries Key Value},
    h.ReadsEntries .given within ts es → ∀ {n : Nat}, Tree.heightEntries ts < n →
      ∃ us, (es.mapM fun p => do return (h.keyName p.1, ← h.treeTo .given n p.2)) = .ok us ∧
        Tree.NamedEntries h.IsLeaf us (Tree.normEntries ts)
  | [], _, hr, n, _ => by
    rw [ReadsEntries] at hr
    subst hr
    exact ⟨[], rfl, rfl⟩
  | (name, t) :: ts, _, ⟨key, v, rest, he, hk, ht, hr⟩, n, hn => by
    subst he
    obtain ⟨u, hu, hnamed⟩ := Reads.treeTo .given ht (lt_of_le_of_lt (le_max_left _ _) hn)
    obtain ⟨us, hus, hnameds⟩ :=
      ReadsEntries.treeTo_given hr (lt_of_le_of_lt (le_max_right _ _) hn)
    refine ⟨(h.keyName key, u) :: us, ?_, name, _, _, rfl, ?_, hnamed, hnameds⟩
    · rw [List.mapM_cons, hu, hus]
      rfl
    · rw [text?_keyName, hk.keyText_eq]

/-- `Reads.treeTo` for the entries of an attribute map. -/
theorem ReadsEntries.treeTo_stored : ∀ {ts : List (String × Tree String)} {es : Entries Key Value},
    h.ReadsEntries .stored within ts es → ∀ {n : Nat}, Tree.heightEntries ts < n →
      ∃ us, (es.mapM fun p => do return (p.1, ← h.treeTo .stored n p.2)) = .ok us ∧
        Tree.NamedEntries h.IsLeaf us (Tree.normEntries ts)
  | [], _, hr, n, _ => by
    rw [ReadsEntries] at hr
    subst hr
    exact ⟨[], rfl, rfl⟩
  | (name, t) :: ts, _, ⟨key, v, rest, he, hk, ht, hr⟩, n, hn => by
    subst he
    obtain ⟨u, hu, hnamed⟩ := Reads.treeTo .stored ht (lt_of_le_of_lt (le_max_left _ _) hn)
    obtain ⟨us, hus, hnameds⟩ :=
      ReadsEntries.treeTo_stored hr (lt_of_le_of_lt (le_max_right _ _) hn)
    refine ⟨(key, u) :: us, ?_, name, _, _, rfl, hk, hnamed, hnameds⟩
    rw [List.mapM_cons, hu, hus]
    rfl

end

/-- The tree of a value is the tree that it shows, in normal form. -/
theorem Reads.tree (reading : Reading) {t : Tree String} {v : Value}
    (hr : h.Reads reading.opened within t v) :
    ∃ u, h.tree reading v = .ok u ∧ u.Named h.IsLeaf t.norm :=
  hr.treeTo reading (Nat.lt_succ_of_le hr.height_le)

/-! ### Building trees -/

/-- What a built tree shows itself as. -/
def Building.shown : Building → View
  | .wrapped => .stored
  | .plain => .plain

/-- A scalar that is made is left as it is. -/
theorem settle_of_isMade {v : Value} (hv : v.isMade = true) : settle v = pure v := by
  cases v with
  | int n mark => cases mark <;> first | rfl | cases hv
  | real x mark => cases mark <;> first | rfl | cases hv
  | text s mark => cases mark <;> first | rfl | cases hv
  | bytes bs mark => cases mark <;> first | rfl | cases hv
  | method v owner name mark => cases mark <;> first | rfl | cases hv
  | _ => rfl

/-- All that making a scalar does is to choose its mark, and perhaps to count it. -/
theorem settle_withMark (h : Heap) (v : Value) : ∃ mark, (v.withMark mark).isMade = true ∧
    (settle v h = .ok (v.withMark mark) h ∨
      settle v h = .ok (v.withMark mark) { h with made := h.made + 1 }) := by
  cases v with
  | int n mark | text n mark | bytes n mark =>
    cases mark with
    | pending =>
      rw [settle]
      split
      · exact ⟨.shared, rfl, .inl rfl⟩
      · exact ⟨.made h.made, rfl, .inr rfl⟩
    | _ => exact ⟨_, rfl, .inl rfl⟩
  | real x mark | method receiver owner name mark =>
    cases mark with
    | pending => exact ⟨.made h.made, rfl, .inr rfl⟩
    | _ => exact ⟨_, rfl, .inl rfl⟩
  | _ => exact ⟨.shared, rfl, .inl rfl⟩

/-- Making a scalar changes no cell. -/
theorem settle_marked (h : Heap) (v : Value) : ∃ mark h', settle v h = .ok (v.withMark mark) h' ∧
    (v.withMark mark).isMade = true ∧ h'.cells = h.cells := by
  obtain ⟨mark, hmade, hrun | hrun⟩ := settle_withMark h v <;> exact ⟨mark, _, hrun, hmade, rfl⟩

/-- A heap with the same cells extends a heap. -/
theorem extends_of_cells (hc : h'.cells = h.cells) : Extends h h' :=
  ⟨by rw [size, size, hc], fun r _ => by rw [read, read, hc]⟩

/-- Making a key keeps its text, and no cell changes. -/
theorem settleKey_made {key : Key} {name : String} (hk : key.text? = some name) :
    ∃ key' h', settleKey key h = .ok key' h' ∧ key'.text? = some name ∧
      key'.value.isMade = true ∧ h'.cells = h.cells := by
  cases key with
  | tuple r items => cases hk
  | atom v =>
    obtain ⟨mark, h', hrun, hmade, hc⟩ := settle_marked h v
    refine ⟨.atom (v.withMark mark), h', ?_, (v.text?_withMark mark).trans hk, hmade, hc⟩
    simp only [settleKey, bind, EStateM.bind, hrun]
    rfl

theorem settleKey_text? {key : Key} {name : String} (hk : key.text? = some name) :
    ∃ key' h', settleKey key h = .ok key' h' ∧ key'.text? = some name ∧ h'.cells = h.cells := by
  obtain ⟨key', h', hrun, hk', -, hc⟩ := settleKey_made (h := h) hk
  exact ⟨key', h', hrun, hk', hc⟩

/-- A new cell extends the heap. -/
theorem extends_push (h : Heap) (c : Cell) : Extends h (h.push c) :=
  ⟨by simp, fun r hr => read_alloc_old h c r hr⟩

/-- A new list shows the items that it is made of. -/
theorem newList_reads {ts : List (Tree String)} {vs : List Value}
    (hr : h.ReadsItems view within ts vs) (hnew : ∀ r, h.size ≤ r.index → within r) :
    ∃ w h', newList vs h = .ok w h' ∧ Extends h h' ∧ h'.Reads view within (.list ts) w := by
  have he := extends_push h (.list vs)
  refine ⟨.ref h.next, h.push (.list vs), rfl, he, vs, ?_, ?_, hr.extends he⟩
  · simp [items?, cell?]
  · simp only [own, read_alloc_new, Option.bind_some, Cell.backing?, Option.toList_none,
      List.mem_singleton, forall_eq]
    exact hnew _ (Nat.le_refl _)

/-- A new map shows the entries that it is made of. -/
theorem make_reads (building : Building) {ts : List (String × Tree String)}
    {es : Entries Key Value} (hn : (Entries.keys ts).Nodup)
    (hr : h.ReadsEntries building.shown within ts es)
    (hnew : ∀ r, h.size ≤ r.index → within r) :
    ∃ w h', building.make es h = .ok w h' ∧ Extends h h' ∧
      h'.Reads building.shown within (.map ts) w := by
  have hm : Entries.Match (fun _ t v => h.Reads building.shown within t v) ts es := by
    cases building <;> exact readsEntries_iff.mp hr
  have he := extends_push h (.dict es)
  -- a dictionary, or a map over a new dictionary: both cells are new, and may be opened
  cases building with
  | plain =>
    refine ⟨.ref h.next, h.push (.dict es), rfl, he, es, ?_, ?_, hm.apart_iff.mpr hn,
      hr.extends he⟩
    · simp [entries?, cell?, Building.shown]
    · simp only [own, read_alloc_new, Option.bind_some, Cell.backing?, Option.toList_none,
        List.mem_singleton, forall_eq]
      exact hnew _ (Nat.le_refl _)
  | wrapped =>
    have he' := extends_push (h.push (.dict es)) (.map (.ref h.next))
    have hd : ((h.push (.dict es)).push (.map (.ref h.next))).read h.next = some (.dict es) :=
      he'.read_of_some (read_alloc_new h _)
    refine ⟨.ref (h.push (.dict es)).next, _, rfl, he.trans he', es, ?_, ?_,
      hm.apart_iff.mpr hn, (hr.extends he).extends he'⟩
    · simp [entries?, cell?, Building.shown, hd]
    · simp only [own, read_alloc_new, Option.bind_some, Cell.backing?, Option.toList_some,
        List.mem_cons, List.not_mem_nil, or_false, forall_eq_or_imp, forall_eq]
      exact ⟨hnew _ (by simp [next, size, push]), hnew _ (Nat.le_refl _)⟩

mutual

/-- A built value shows the tree that it is built from. -/
theorem build_reads (building : Building) : ∀ {u : Tree Key} {t : Tree String} {h : Heap},
    u.Named h.IsLeaf t → t.Distinct →
      ∃ w h', build building u h = .ok w h' ∧ Extends h h' ∧ h'.Reads building.shown h.Vacant t w
  | .leaf v, _, h, ⟨ht, hl⟩, _ => by
    subst ht
    refine ⟨v, h, ?_, Agree.refl _ _, rfl, hl, hl.own_vacant⟩
    rw [build, settle_of_isMade hl.1]
    rfl
  | .list us, _, h, ⟨ts, ht, hus⟩, hd => by
    subst ht
    obtain ⟨vs, h₁, hvs, he₁, hr⟩ := buildList_reads building hus hd
    obtain ⟨w, h₂, hw, he₂, hr₂⟩ := newList_reads hr fun _ hs =>
      vacant_of_size_le (Nat.le_trans he₁.size_le hs)
    exact ⟨w, h₂, by rw [build]; simp [bind, EStateM.bind, hvs, hw], he₁.trans he₂, hr₂⟩
  | .map us, _, h, ⟨ts, ht, hus⟩, hd => by
    subst ht
    obtain ⟨es, h₁, hes, he₁, hr⟩ := buildEntries_reads building hus hd.2
    obtain ⟨w, h₂, hw, he₂, hr₂⟩ := make_reads building hd.1 hr fun _ hs =>
      vacant_of_size_le (Nat.le_trans he₁.size_le hs)
    exact ⟨w, h₂, by rw [build]; simp [bind, EStateM.bind, hes, hw], he₁.trans he₂, hr₂⟩

/-- `build_reads`, item by item. -/
theorem buildList_reads (building : Building) : ∀ {us : List (Tree Key)} {ts : List (Tree String)}
    {h : Heap}, Tree.NamedItems h.IsLeaf us ts → Tree.DistinctList ts →
      ∃ vs h', buildList building us h = .ok vs h' ∧ Extends h h' ∧
        h'.ReadsItems building.shown h.Vacant ts vs
  | [], _, h, hus, _ => by
    rw [Tree.NamedItems] at hus
    subst hus
    exact ⟨[], h, rfl, Agree.refl _ _, rfl⟩
  | u :: us, _, h, ⟨t, ts, hts, hu, hus⟩, hd => by
    subst hts
    obtain ⟨v, h₁, hv, he₁, hr₁⟩ := build_reads building hu hd.1
    obtain ⟨vs, h₂, hvs, he₂, hr₂⟩ := buildList_reads building (hus.imp fun hl => hl.extends he₁) hd.2
    refine ⟨v :: vs, h₂, ?_, he₁.trans he₂, v, vs, rfl, hr₁.extends he₂,
      hr₂.mono fun _ hw => hw.of_extends he₁⟩
    rw [buildList]
    simp [bind, EStateM.bind, hv, hvs]
    rfl

/-- `build_reads`, entry by entry. -/
theorem buildEntries_reads (building : Building) : ∀ {us : List (Key × Tree Key)}
    {ts : List (String × Tree String)} {h : Heap}, Tree.NamedEntries h.IsLeaf us ts →
      Tree.DistinctEntries ts →
      ∃ es h', buildEntries building us h = .ok es h' ∧ Extends h h' ∧
        h'.ReadsEntries building.shown h.Vacant ts es
  | [], _, h, hus, _ => by
    rw [Tree.NamedEntries] at hus
    subst hus
    exact ⟨[], h, rfl, Agree.refl _ _, rfl⟩
  | (key, u) :: us, _, h, ⟨name, t, ts, hts, hk, hu, hus⟩, hd => by
    subst hts
    obtain ⟨key', h₁, hkey, hk', hc⟩ := settleKey_text? (h := h) hk
    have he₁ := extends_of_cells hc
    obtain ⟨v, h₂, hv, he₂, hr₂⟩ := build_reads building (hu.imp fun hl => hl.extends he₁) hd.1
    obtain ⟨es, h₃, hes, he₃, hr₃⟩ :=
      buildEntries_reads building (hus.imp fun hl => hl.extends (he₁.trans he₂)) hd.2
    refine ⟨(key', v) :: es, h₃, ?_, (he₁.trans he₂).trans he₃, key', v, es, rfl, ?_,
      (hr₂.extends he₃).mono fun _ hw => hw.of_extends he₁,
      hr₃.mono fun _ hw => hw.of_extends (he₁.trans he₂)⟩
    · rw [buildEntries]
      simp [bind, EStateM.bind, hkey, hv, hes]
      rfl
    · cases building <;> exact hk'

end

/-- A copy into an attribute map shows what was handed in, in normal form. -/
theorem wrap_reads {t : Tree String} {v : Value} (hr : h.Reads .given within t v) :
    ∃ w h', wrap v h = .ok w h' ∧ Extends h h' ∧ h'.Reads .stored h.Vacant t.norm w := by
  obtain ⟨u, hu, hnamed⟩ := Reads.tree .given hr
  obtain ⟨w, h', hw, he, hr'⟩ := build_reads .wrapped hnamed (Tree.distinct_norm t)
  exact ⟨w, h', by simp [wrap, ask, hu, bind, EStateM.bind, hw], he, hr'⟩

/-- A copy out of an attribute map is plain data that show what the map shows. -/
theorem unwrap_reads {t : Tree String} {v : Value} (hr : h.Reads .stored within t v) :
    ∃ w h', unwrap v h = .ok w h' ∧ Extends h h' ∧ h'.Reads .plain h.Vacant t w := by
  obtain ⟨u, hu, hnamed⟩ := Reads.tree .stored hr
  have hd := hr.distinct (by decide)
  rw [Tree.norm_of_distinct hd] at hnamed
  obtain ⟨w, h', hw, he, hr'⟩ := build_reads .plain hnamed hd
  exact ⟨w, h', by simp [unwrap, ask, hu, bind, EStateM.bind, hw], he, hr'⟩

end Heap

end PageMeta
