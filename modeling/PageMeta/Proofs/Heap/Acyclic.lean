import PageMeta.Proofs.Heap.Paths

/-!
# Values without cycles

A value shows a tree if it never comes back to itself on a way down and each of its places can be
read.  The ways down a value without cycles are no longer than there are cells.

## Key results

- `Acyclic.length_le`: no way down is longer than there are cells
- `Legible.exists_reads`: a value without cycles whose places can be read shows a tree
-/

namespace PageMeta.Heap

/-- Whether nothing that a value leads to comes back to itself. -/
def Acyclic (h : Heap) (view : View) (v : Value) : Prop :=
  ∀ way below w, h.at? view v way = some w → h.at? view w below = some w → below = []

/-- Whether every place of a value can be read: what is not opened is a leaf, and every map has each
name once.  `texts` are the cells on which the texts of the keys depend. -/
structure Legible (h : Heap) (view : View) (texts : Ref → Prop) (v : Value) : Prop where
  leaf : ∀ way w, h.at? view v way = some w → h.items? view w = none →
    h.entries? view w = none → h.IsLeaf w
  apart : ∀ way w entries, h.at? view v way = some w → h.entries? view w = some entries →
    entries.Apart
  nodup : ∀ way w entries, h.at? view v way = some w → h.entries? view w = some entries →
    (Entries.keys (h.named entries)).Nodup
  keys : h.KeysRead view texts v

variable {h : Heap} {view : View} {texts : Ref → Prop} {v w : Value}

theorem Legible.child? {b : Branch} (hl : h.Legible view texts v)
    (hb : h.child? view v b = some w) : h.Legible view texts w where
  leaf way u hu := hl.leaf (b :: way) u ((at?_cons hb).trans hu)
  apart way u entries hu := hl.apart (b :: way) u entries ((at?_cons hb).trans hu)
  nodup way u entries hu := hl.nodup (b :: way) u entries ((at?_cons hb).trans hu)
  keys := hl.keys.child? hb

/-- What has a step down is a cell. -/
theorem ref_of_child? {b : Branch} (hb : h.child? view v b = some w) :
    ∃ r, v = .ref r ∧ r.index < h.size := by
  cases b with
  | entry name =>
    obtain ⟨entries, he, -⟩ := Option.bind_eq_some_iff.mp hb
    exact ref_of_entries? he
  | item index =>
    obtain ⟨items, hi, -⟩ := Option.bind_eq_some_iff.mp hb
    exact ref_of_items? hi

/-- Above the end of a way there are cells only. -/
theorem ref_of_at? {way below : List Branch} {b : Branch}
    (hw : h.at? view v (way ++ b :: below) = some w) :
    ∃ r, h.at? view v way = some (.ref r) ∧ r.index < h.size := by
  rw [at?_append] at hw
  obtain ⟨u, hu, hw⟩ := Option.bind_eq_some_iff.mp hw
  obtain ⟨u', hu', -⟩ := Option.bind_eq_some_iff.mp hw
  obtain ⟨r, rfl, hr⟩ := ref_of_child? hu'
  exact ⟨r, hu, hr⟩

/-- No way down a value without cycles is longer than there are cells: it meets no cell twice. -/
theorem Acyclic.length_le (ha : h.Acyclic view v) {way : List Branch}
    (hw : h.at? view v way = some w) : way.length ≤ h.size := by
  have hcell : ∀ n : Fin way.length, ∃ r : Fin h.size,
      h.at? view v (way.take n) = some (.ref ⟨r⟩) := fun n => by
    have hsplit : way = way.take n ++ way[n] :: way.drop (n + 1) := by simp
    rw [hsplit] at hw
    obtain ⟨r, hr, hlt⟩ := ref_of_at? hw
    exact ⟨⟨r.index, hlt⟩, hr⟩
  choose cell hat using hcell
  -- between two visits of one cell there would be a way from the cell to itself
  have hne : ∀ m n : Fin way.length, m < n → cell m ≠ cell n := by
    intro m n hmn he
    have hlong := hat n
    have hsplit : way.take n = way.take m ++ (way.take n).drop m := by
      have htake : way.take m = (way.take n).take m := by
        rw [List.take_take, Nat.min_eq_left (Nat.le_of_lt hmn)]
      rw [htake, List.take_append_drop]
    rw [hsplit, at?_append, hat m, Option.bind_some, ← he] at hlong
    have hnil := ha _ _ _ (hat m) hlong
    have hlen := congrArg List.length hnil
    simp only [List.length_drop, List.length_take, List.length_nil] at hlen
    omega
  have hinj : Function.Injective cell := by
    intro m n he
    rcases lt_trichotomy m n with hmn | hmn | hmn
    · exact absurd he (hne m n hmn)
    · exact hmn
    · exact absurd he.symm (hne n m hmn)
  simpa using Fintype.card_le_of_injective cell hinj

/-- Items that show trees show a list of trees. -/
theorem exists_readsItems {within : Ref → Prop} {vs : List Value}
    (hv : ∀ v ∈ vs, ∃ t, h.Reads view within t v ∧ t.Distinct) :
    ∃ ts, h.ReadsItems view within ts vs ∧ Tree.DistinctList ts := by
  induction vs with
  | nil => exact ⟨[], rfl, trivial⟩
  | cons v vs ih =>
    obtain ⟨⟨t, ht, hd⟩, hrest⟩ := List.forall_mem_cons.mp hv
    obtain ⟨ts, hts, hds⟩ := ih hrest
    exact ⟨t :: ts, ⟨v, vs, rfl, ht, hts⟩, hd, hds⟩

/-- Entries whose values show trees show entries with trees. -/
theorem exists_readsEntries {within : Ref → Prop} {es : Entries Key Value}
    (hk : ∀ p ∈ es, h.KeyReads view within p.1 (h.keyText p.1))
    (hv : ∀ p ∈ es, ∃ t, h.Reads view within t p.2 ∧ t.Distinct) :
    ∃ ts, h.ReadsEntries view within ts es ∧ Tree.DistinctEntries ts := by
  induction es with
  | nil => exact ⟨[], rfl, trivial⟩
  | cons p es ih =>
    obtain ⟨key, v⟩ := p
    obtain ⟨hkey, hkeys⟩ := List.forall_mem_cons.mp hk
    obtain ⟨⟨t, ht, hd⟩, hrest⟩ := List.forall_mem_cons.mp hv
    obtain ⟨ts, hts, hds⟩ := ih hkeys hrest
    exact ⟨(_, t) :: ts, ⟨key, v, es, rfl, hkey, ht, hts⟩, hd, hds⟩

/-- A value with short ways down whose places can be read shows a tree. -/
theorem Legible.reads_of_length_le : ∀ (n : Nat) {v : Value}, h.Legible view texts v →
    (∀ way w, h.at? view v way = some w → way.length ≤ n) →
    ∃ t, h.Reads view (fun _ => True) t v ∧ t.Distinct := by
  -- by the length that ways down can have: one step down they are shorter
  intro n
  induction n with
  | zero =>
    intro v hl hn
    have hnone : ∀ b w, h.child? view v b ≠ some w := fun b w hb => by
      have hlen := hn [b] w ((at?_singleton b).trans hb)
      simp at hlen
    exact reads_of_children hl fun b w hb => absurd hb (hnone b w)
  | succ n ih =>
    intro v hl hn
    refine reads_of_children hl fun b w hb => ih (hl.child? hb) fun way u hu => ?_
    have hlen := hn (b :: way) u ((at?_cons hb).trans hu)
    exact Nat.le_of_succ_le_succ hlen
where
  /-- A value shows a tree if what stands one step down does. -/
  reads_of_children {v : Value} (hl : h.Legible view texts v)
      (hc : ∀ b w, h.child? view v b = some w →
        ∃ t, h.Reads view (fun _ => True) t w ∧ t.Distinct) :
      ∃ t, h.Reads view (fun _ => True) t v ∧ t.Distinct := by
    cases hi : h.items? view v with
    | some items =>
      obtain ⟨ts, hts, hd⟩ := exists_readsItems fun w hw => by
        obtain ⟨index, hindex⟩ := List.getElem?_of_mem hw
        exact hc (.item index) w (by rw [Heap.child?, hi, Option.bind_some, hindex])
      exact ⟨.list ts, ⟨items, hi, fun _ _ => trivial, hts⟩, hd⟩
    | none =>
      cases he : h.entries? view v with
      | none => exact ⟨.leaf v, ⟨rfl, hl.leaf [] v rfl hi he, fun _ _ => trivial⟩, trivial⟩
      | some entries =>
        have hnodup := hl.nodup [] v entries rfl he
        have hkeys : ∀ p ∈ entries, h.KeyReads view (fun _ => True) p.1 (h.keyText p.1) :=
          fun p hp => (hl.keys [] v entries rfl he p hp).mono fun _ _ => trivial
        obtain ⟨ts, hts, hd⟩ := exists_readsEntries hkeys fun p hp => by
          refine hc (.entry (h.keyText p.1)) p.2 ?_
          rw [Heap.child?, he, Option.bind_some]
          exact Entries.get?_of_mem hnodup
            (List.mem_map_of_mem (f := fun p => (h.keyText p.1, p.2)) hp)
        refine ⟨.map ts, ⟨entries, he, fun _ _ => trivial, hl.apart [] v entries rfl he, hts⟩, ?_, hd⟩
        rw [← hts.keys_named]
        exact hnodup

/-- A value without cycles whose places can be read shows a tree. -/
theorem Legible.exists_reads (hl : h.Legible view texts v) (ha : h.Acyclic view v) :
    ∃ t, h.Reads view (fun _ => True) t v ∧ t.Distinct :=
  hl.reads_of_length_le h.size fun _ _ => ha.length_le

end PageMeta.Heap
