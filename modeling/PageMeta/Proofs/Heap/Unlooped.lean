import Mathlib.Data.List.Perm.Subperm
import PageMeta.Proofs.Heap.Pure
import PageMeta.Proofs.Heap.TreeShape

/-!
# Values without cycles

Values are without cycles if no cell that they lead to leads back to itself.  Going down from such a
value, a cell is never met twice, so there are no more steps than cells.  The functions that take
values apart go down one level for each step and are bounded by the number of cells, which is enough.

## Key results

- `Unlooped.induct`: what holds of a value if it holds of everything below holds of values without
  cycles, with a level left for every cell
- `exists_tree`: data without cycles can be copied into attribute maps
- `Unlooped.acyclic`: on no way down does one come back
-/

namespace PageMeta.Heap

variable {h h' : Heap} {vs : List Value} {v w : Value} {r s : Ref}

/-- Whether a cell holds something that leads to a cell. -/
def Below (h : Heap) (r s : Ref) : Prop :=
  ∃ c, h.read r = some c ∧ ∃ t ∈ c.addresses, h.Leads [.ref t] s

/-- Whether no cell that values lead to leads back to itself. -/
def Unlooped (h : Heap) (vs : List Value) : Prop := ∀ r, h.Leads vs r → ¬ h.Below r r

/-- What a cell holds is below it. -/
theorem below_of_addresses {c : Cell} (hr : h.read r = some c) (hs : s ∈ c.addresses) :
    h.Below r s := ⟨c, hr, s, hs, leads_self s⟩

theorem Below.trans {t : Ref} (hs : h.Below r s) (ht : h.Below s t) : h.Below r t := by
  obtain ⟨c, hr, u, hu, hl⟩ := hs
  obtain ⟨c', hs', u', hu', hl'⟩ := ht
  exact ⟨c, hr, u, hu, (hl.step hs' hu').trans hl'⟩

/-- What is below a cell that values lead to is led to. -/
theorem Below.leads (hs : h.Below r s) (hr : h.Leads vs r) : h.Leads vs s := by
  obtain ⟨c, hc, t, ht, hl⟩ := hs
  exact (hr.step hc ht).trans hl

/-- Values are without cycles as long as they stay as they are. -/
theorem Unlooped.agree (hu : h.Unlooped vs) (ha : Agree (h.Leads vs) h h') : h'.Unlooped vs := by
  intro r hr hback
  have hr := hr.of_agree ha
  obtain ⟨c, hc, t, ht, hl⟩ := hback
  have hc := (ha.read_eq r hr).symm.trans hc
  exact hu r hr ⟨c, hc, t, ht, hl.of_agree (ha.mono fun _ => (hr.step hc ht).trans)⟩

/-- There are no more different cells than the heap has. -/
theorem length_le_size {rs : List Ref} (hn : rs.Nodup) (hlt : ∀ r ∈ rs, r.index < h.size) :
    rs.length ≤ h.size := by
  have hindices : (rs.map Ref.index).Nodup := hn.map_on fun r _ s _ heq => by
    cases r; cases s; exact congrArg Ref.mk heq
  have hsub : rs.map Ref.index ⊆ List.range h.size := fun i hi => by
    obtain ⟨r, hr, rfl⟩ := List.mem_map.mp hi
    exact List.mem_range.mpr (hlt r hr)
  have hle := (List.subperm_of_subset hindices hsub).length_le
  rwa [List.length_map, List.length_range] at hle

/-- A property that a value has with one level more than everything below it, is a property of all
values without cycles if there is a level for every cell and one more. -/
theorem Unlooped.induct {P : Nat → Value → Prop} (hu : h.Unlooped vs) (ht : h.There vs)
    (hstep : ∀ n v, Held (h.Leads vs) v →
      (∀ r, v = .ref r → ∀ w, Held (h.Below r) w → P n w) → P (n + 1) v)
    (hv : Held (h.Leads vs) v) : P h.depth v := by
  -- the cells above the value are different, and there is a level for each cell that is not above
  suffices hseen : ∀ (n : Nat) (above : List Ref) {v : Value}, above.Nodup →
      (∀ r ∈ above, h.Leads vs r ∧ Held (h.Below r) v) → Held (h.Leads vs) v →
      h.size < n + above.length → P n v from
    hseen h.depth [] List.nodup_nil (fun _ hr => absurd hr List.not_mem_nil) hv
      (Nat.lt_succ_self _)
  intro n
  induction n with
  | zero =>
    intro above v hnodup habove _ hsize
    have hle := length_le_size hnodup fun r hr => ht r (habove r hr).1
    omega
  | succ n ih =>
    intro above v hnodup habove hv hsize
    refine hstep n v hv fun r heq w hw => ih (r :: above) ?_ ?_ ?_ ?_
    · refine List.nodup_cons.mpr ⟨fun hr => ?_, hnodup⟩
      -- it would lead back to itself
      obtain ⟨hl, hb⟩ := habove r hr
      exact hu r hl (heq ▸ hb).ref
    · subst heq
      refine List.forall_mem_cons.mpr ⟨⟨hv.ref, hw⟩, fun s hs => ⟨(habove s hs).1, fun t ht => ?_⟩⟩
      exact (habove s hs).2.ref.trans (hw t ht)
    · subst heq
      exact fun s hs => (hw s hs).leads hv.ref
    · rw [List.length_cons]
      omega

/-- A traversal succeeds if each element gives something. -/
theorem exists_mapM {α β ε : Type} {f : α → Except ε β} : ∀ {as : List α},
    (∀ a ∈ as, ∃ b, f a = .ok b) → ∃ bs, as.mapM f = .ok bs
  | [], _ => ⟨[], rfl⟩
  | a :: as, hf => by
    obtain ⟨⟨b, hb⟩, hrest⟩ := List.forall_mem_cons.mp hf
    obtain ⟨bs, hbs⟩ := exists_mapM hrest
    exact ⟨b :: bs, by rw [List.mapM_cons, hb, hbs]; rfl⟩

/-- What a value is opened to is below it. -/
theorem held_below_items {view : View} {items : List Value} (hi : h.items? view (.ref r) = some items) :
    ∀ w ∈ items, Held (h.Below r) w := by
  intro w hw s hs
  unfold items? cell? at hi
  split at hi
  · rename_i hread
    cases hi
    exact below_of_addresses hread (List.mem_flatMap.mpr ⟨w, hw, hs⟩)
  · rename_i hread
    split at hi
    · cases hi
      exact below_of_addresses hread (List.mem_flatMap.mpr ⟨w, hw, hs⟩)
    · cases hi
  · cases hi

theorem held_below_entries {view : View} {es : Entries Key Value}
    (he : h.entries? view (.ref r) = some es) : ∀ p ∈ es, Held (h.Below r) p.2 := by
  have hentry : ∀ {d : Ref}, h.read d = some (.dict es) → ∀ p ∈ es, Held (h.Below d) p.2 :=
    fun hd p hp s hs => below_of_addresses hd
      (List.mem_flatMap.mpr ⟨p, hp, List.mem_append_right _ hs⟩)
  obtain ⟨r', heq, ⟨hr, -⟩ | ⟨d, hr, hd, -⟩⟩ := cell_of_entries? he <;> cases heq
  · exact hentry hr
  · exact fun p hp s hs =>
      (below_of_addresses hr (List.mem_singleton_self d)).trans (hentry hd p hp s hs)

/-- What stands one step down is below. -/
theorem held_below_child {view : View} {b : Branch} (hb : h.child? view (.ref r) b = some w) :
    Held (h.Below r) w := by
  rcases mem_of_child? hb with ⟨items, hi, hmem⟩ | ⟨entries, he, p, hp, rfl⟩
  · exact held_below_items hi w hmem
  · exact held_below_entries he p hp

/-- A way down leads nowhere but below. -/
theorem held_of_at? {view : View} {P : Ref → Prop} (hP : ∀ s t, P s → h.Below s t → P t) :
    ∀ {way : List Branch} {v : Value}, Held P v → h.at? view v way = some w → Held P w
  | [], _, hv, hw => by cases hw; exact hv
  | b :: way, v, hv, hw => by
    obtain ⟨u, hu, hrest⟩ := Option.bind_eq_some_iff.mp hw
    obtain ⟨r, rfl, -⟩ := ref_of_child? hu
    exact held_of_at? hP ((held_below_child hu).mono fun s => hP r s hv.ref) hrest

/-- Nothing in a value without cycles comes back to itself on any way. -/
theorem Unlooped.acyclic (hu : h.Unlooped vs) (hv : Held (h.Leads vs) v) (view : View) :
    h.Acyclic view v := by
  intro way below w hw hback
  have hheld := held_of_at? (fun s t hs ht => ht.leads hs) hv hw
  cases below with
  | nil => rfl
  | cons b below =>
    obtain ⟨u, hu', hback⟩ := Option.bind_eq_some_iff.mp hback
    obtain ⟨r, rfl, -⟩ := ref_of_child? hu'
    exact absurd (held_of_at? (fun s t => Below.trans) (held_below_child hu') hback).ref
      (hu r hheld.ref)

/-- A value has a tree as soon as everything directly in it has one. -/
theorem exists_treeTo_succ {n : Nat}
    (hitems : ∀ items, h.items? .given v = some items → ∀ w ∈ items,
      ∃ u, h.treeTo .given n w = .ok u)
    (hentries : ∀ entries, h.entries? .given v = some entries → ∀ p ∈ entries,
      ∃ u, h.treeTo .given n p.2 = .ok u)
    (hleaf : h.items? .given v = none → h.entries? .given v = none → h.IsLeaf v) :
    ∃ u, h.treeTo .given (n + 1) v = .ok u := by
  cases hi : h.items? .given v with
  | some items =>
    obtain ⟨us, hus⟩ := exists_mapM (hitems items hi)
    exact ⟨.list us, by rw [treeTo_of_items? .given n hi, hus]; rfl⟩
  | none =>
    cases he : h.entries? .given v with
    | some entries =>
      obtain ⟨us, hus⟩ := exists_mapM (f := fun p : Key × Value =>
        (do return (h.keyName p.1, ← h.treeTo .given n p.2) : Except Error (Key × Tree Key)))
        fun p hp => by
          obtain ⟨u, hu⟩ := hentries entries he p hp
          exact ⟨(h.keyName p.1, u), by rw [hu]; rfl⟩
      refine ⟨.map (Entries.ofList us), ?_⟩
      rw [treeTo_given_of_entries? n he, hus]
      rfl
    | none => exact ⟨.leaf v, treeTo_of_isLeaf .given n (hleaf hi he)⟩

/-- Data without cycles are read as a tree, to be copied into an attribute map. -/
theorem exists_tree (hp : h.Pure vs) (hs : h.Sound) (hu : h.Unlooped vs) (hv : v.isDatum = true)
    (hheld : Held (h.Leads vs) v) : ∃ u, h.tree .given v = .ok u := by
  refine hu.induct (P := fun n v => v.isDatum = true → ∃ u, h.treeTo .given n v = .ok u) hp.there
    (fun n v hheld hbelow hv => ?_) hheld hv
  refine exists_treeTo_succ (fun items hi w hw => ?_) (fun entries he p hpe => ?_) fun hi he =>
    hs.isLeaf_of_unopened (hp.fine hv hheld) hi he
  · obtain ⟨r, rfl, -⟩ := ref_of_items? hi
    exact hbelow r rfl w (held_below_items hi w hw) (hp.items hheld hi w hw)
  · obtain ⟨r, rfl, -⟩ := ref_of_entries? he
    exact hbelow r rfl p.2 (held_below_entries he p hpe) (hp.entries hheld he p hpe)

/-! ### Plain data -/

section PlainData

variable {within : Ref → Prop} {t : Tree String}

theorem isScalar_of_isPlain (hv : v.isPlain = true) (hm : v.isMade = true) : v.isScalar = true := by
  cases v <;> first | exact hm | cases hv

/-- A part of plain data is a scalar, or a cell. -/
theorem Reads.datum (hr : h.Reads .plain within t v) (hp : t.isPlain = true) :
    v.isDatum = true ∧ ∀ s ∈ v.addresses, v = .ref s := by
  cases t with
  | leaf u =>
    obtain ⟨rfl, hl, -⟩ := hr
    have hscalar := isScalar_of_isPlain hp hl.1
    rw [Value.addresses_of_isScalar hscalar]
    exact ⟨Value.isDatum_of_isScalar hscalar, fun _ hs => absurd hs List.not_mem_nil⟩
  | list ts =>
    obtain ⟨r, rfl, -⟩ := ref_of_items? hr.choose_spec.1
    exact ⟨rfl, fun s hs => by rw [List.mem_singleton.mp hs]⟩
  | map ts =>
    obtain ⟨r, rfl, -⟩ := ref_of_entries? hr.choose_spec.1
    exact ⟨rfl, fun s hs => by rw [List.mem_singleton.mp hs]⟩

/-- A cell of plain data holds only data, and the cells in it show smaller trees. -/
theorem Reads.cell (hr : h.Reads .plain within t (.ref r)) (hp : t.isPlain = true) :
    ∃ c, h.read r = some c ∧ h.IsDatum c ∧ ∀ s ∈ c.addresses,
      ∃ u, h.Reads .plain within u (.ref s) ∧ u.isPlain = true ∧ u.height < t.height := by
  cases t with
  | leaf u =>
    obtain ⟨rfl, -⟩ := hr
    cases hp
  | list ts =>
    obtain ⟨items, hi, -, hts⟩ := hr
    have hread := read_of_items? (by decide) hi
    have hpart : ∀ w ∈ items, ∃ u ∈ ts, h.Reads .plain within u w := fun w hw => hts.exists_mem w hw
    refine ⟨_, hread, fun w hw => ?_, fun s hs => ?_⟩
    · obtain ⟨u, hu, hread⟩ := hpart w hw
      exact (hread.datum (Tree.allLeavesList_iff.mp hp u hu)).1
    · -- what a list holds are its items, and each shows an item of the tree
      obtain ⟨w, hw, hs⟩ := List.mem_flatMap.mp hs
      obtain ⟨u, hu, hread⟩ := hpart w hw
      have hpu := Tree.allLeavesList_iff.mp hp u hu
      exact ⟨u, (hread.datum hpu).2 s hs ▸ hread, hpu, Nat.lt_succ_of_le (Tree.height_le_heightList hu)⟩
  | map ts =>
    obtain ⟨entries, he, -, -, hts⟩ := hr
    obtain ⟨r', heq, ⟨hread, -⟩ | ⟨_, -, -, hview⟩⟩ := cell_of_entries? he
    swap
    · exact absurd rfl hview
    cases heq
    refine ⟨_, hread, fun p hpe => ?_, fun s hs => ?_⟩
    · obtain ⟨q, hq, hk, hread⟩ := hts.exists_mem p hpe
      exact ⟨Key.stands_of_text? h hk, (hread.datum (Tree.allLeavesEntries_iff.mp hp q hq)).1⟩
    · obtain ⟨p, hpe, hs⟩ := List.mem_flatMap.mp hs
      obtain ⟨q, hq, hk, hread⟩ := hts.exists_mem p hpe
      have hpu := Tree.allLeavesEntries_iff.mp hp q hq
      -- a key that is a text holds nothing, so all that an entry holds is in its value
      rcases List.mem_append.mp hs with hs | hs
      · rw [Key.addresses_of_text? hk] at hs
        cases hs
      · exact ⟨q.2, (hread.datum hpu).2 s hs ▸ hread, hpu,
          Nat.lt_succ_of_le (Tree.height_le_heightEntries hq)⟩

/-- Plain data are data, and without cycles. -/
theorem Reads.pure (hr : h.Reads .plain within t v) (hp : t.isPlain = true) :
    h.Pure [v] ∧ h.Unlooped [v] := by
  have hcell : ∀ r, h.Leads [v] r → ∃ u, h.Reads .plain within u (.ref r) ∧ u.isPlain = true := by
    intro r hl
    induction hl with
    | held hv hs =>
      rw [List.mem_singleton.mp hv] at hs
      exact ⟨t, (hr.datum hp).2 _ hs ▸ hr, hp⟩
    | step _ hc hs ih =>
      obtain ⟨u, hu, hpu⟩ := ih
      obtain ⟨c, hc', -, hparts⟩ := hu.cell hpu
      rw [hc] at hc'
      cases hc'
      obtain ⟨u', hu', hpu', -⟩ := hparts _ hs
      exact ⟨u', hu', hpu'⟩
  refine ⟨⟨fun w hw => by rw [List.mem_singleton.mp hw]; exact (hr.datum hp).1, fun r hl => ?_⟩,
    fun r hl hback => ?_⟩
  · obtain ⟨u, hu, hpu⟩ := hcell r hl
    obtain ⟨c, hc, hdatum, -⟩ := hu.cell hpu
    exact ⟨c, hc, hdatum⟩
  · -- what is below a cell shows a smaller tree, and a cell shows one tree
    obtain ⟨u, hu, hpu⟩ := hcell r hl
    obtain ⟨c, hc, s, hs, hback⟩ := hback
    obtain ⟨c', hc', -, hparts⟩ := hu.cell hpu
    rw [hc] at hc'
    cases hc'
    have hbelow : ∀ q, h.Leads [.ref s] q →
        ∃ u', h.Reads .plain within u' (.ref q) ∧ u'.isPlain = true ∧ u'.height < u.height := by
      intro q hq
      induction hq with
      | held hv hq =>
        rw [List.mem_singleton.mp hv] at hq
        exact List.mem_singleton.mp hq ▸ hparts s hs
      | step _ hc hs ih =>
        obtain ⟨u', hu', hpu', hlt⟩ := ih
        obtain ⟨c', hc', -, hparts⟩ := hu'.cell hpu'
        rw [hc] at hc'
        cases hc'
        obtain ⟨u'', hu'', hpu'', hlt'⟩ := hparts _ hs
        exact ⟨u'', hu'', hpu'', Nat.lt_trans hlt' hlt⟩
    obtain ⟨u', hu', -, hlt⟩ := hbelow r hback
    exact Nat.lt_irrefl _ (hu'.functional hu ▸ hlt)

end PlainData

end PageMeta.Heap
