import PageMeta.Library
import PageMeta.Proofs.Heap.Hands

/-!
# Values nested in lists and tuples

Lists and tuples hold one another to any depth.  Flattening forgets how they do: what is left are the
leaves from left to right, whatever is grouped with what.

`Nests n v` says that the value `v` is grouped as `n` says.  It is the relation behind `Heap.flattenTo`,
without the bound on the depth.

## Key results

- `NestsAll.flatten_eq`: flattening gives the leaves
- `flatten_singles`, `sequence?_of_flatten`: what is flat stays so, and flattening gives what is flat
- `Nest.Regroups.leavesAll_eq`: grouping some leaves makes no difference
- `Library.flattens_leaves`: what the library's function gives for nested lists and tuples
-/

namespace PageMeta

/-- How values are grouped. -/
inductive Nest where
  | leaf (v : Value)
  | group (items : List Nest)

namespace Nest

mutual

/-- The leaves from left to right. -/
def leaves : Nest → List Value
  | .leaf v => [v]
  | .group items => leavesAll items

/-- `leaves`, item after item. -/
def leavesAll : List Nest → List Value
  | [] => []
  | n :: rest => leaves n ++ leavesAll rest

end

mutual

/-- Number of levels of groups. -/
def height : Nest → Nat
  | .leaf _ => 0
  | .group items => heightAll items + 1

/-- Greatest number of levels in a list. -/
def heightAll : List Nest → Nat
  | [] => 0
  | n :: rest => max (height n) (heightAll rest)

end

/-- Whether some consecutive items, at any depth, are put into a group of their own. -/
inductive Regroups : List Nest → List Nest → Prop
  | group (before part after : List Nest) :
    Regroups (before ++ part ++ after) (before ++ .group part :: after)
  | inside (before after : List Nest) {part part' : List Nest} : Regroups part part' →
    Regroups (before ++ .group part :: after) (before ++ .group part' :: after)

variable {ns ms : List Nest}

@[simp] theorem leavesAll_append (ns ms : List Nest) :
    leavesAll (ns ++ ms) = leavesAll ns ++ leavesAll ms := by
  induction ns with
  | nil => rfl
  | cons n ns ih => rw [List.cons_append, leavesAll, ih, leavesAll, List.append_assoc]

theorem leavesAll_eq_flatten (ns : List Nest) : leavesAll ns = (ns.map leaves).flatten := by
  induction ns with
  | nil => rfl
  | cons n ns ih => rw [leavesAll, ih, List.map_cons, List.flatten_cons]

/-- Grouping some consecutive items makes no difference to the leaves. -/
theorem Regroups.leavesAll_eq (hr : Regroups ns ms) : leavesAll ns = leavesAll ms := by
  induction hr with
  | group before part after => simp [leavesAll, leaves]
  | inside before after _ ih => simp [leavesAll, leaves, ih]

theorem height_le_heightAll {n : Nest} (hn : n ∈ ns) : n.height ≤ heightAll ns := by
  induction ns with
  | nil => cases hn
  | cons m ns ih =>
    rcases List.mem_cons.mp hn with rfl | hn
    · exact Nat.le_max_left _ _
    · exact Nat.le_trans (ih hn) (Nat.le_max_right _ _)

end Nest

namespace Heap

/-- Whether a value is there, and neither a list nor a tuple. -/
def IsSingle (h : Heap) (v : Value) : Prop :=
  h.sequence? v = none ∧ ∀ r, v = .ref r → r.index < h.size

mutual

/-- Whether a value is grouped in a way: a list or a tuple for each group. -/
def Nests (h : Heap) : Nest → Value → Prop
  | .leaf u, v => v = u ∧ h.IsSingle v
  | .group ns, v => ∃ items, h.sequence? v = some items ∧ NestsAll h ns items

/-- `Nests`, item by item. -/
def NestsAll (h : Heap) : List Nest → List Value → Prop
  | [], vs => vs = []
  | n :: ns, vs => ∃ v rest, vs = v :: rest ∧ Nests h n v ∧ NestsAll h ns rest

end

variable {h h' : Heap} {n m : Nest} {ns ms : List Nest} {v : Value} {us vs flat : List Value}

theorem nestsAll_iff : h.NestsAll ns vs ↔ List.Forall₂ h.Nests ns vs := by
  induction ns generalizing vs with
  | nil => simp [NestsAll]
  | cons n ns ih =>
    simp only [NestsAll, List.forall₂_cons_left_iff, ih]
    constructor
    · rintro ⟨v, rest, rfl, hn, hrest⟩
      exact ⟨v, rest, hn, hrest, rfl⟩
    · rintro ⟨v, rest, hn, hrest, rfl⟩
      exact ⟨v, rest, rfl, hn, hrest⟩

theorem NestsAll.append (hns : h.NestsAll ns vs) (hms : h.NestsAll ms us) :
    h.NestsAll (ns ++ ms) (vs ++ us) :=
  nestsAll_iff.mpr (List.rel_append (nestsAll_iff.mp hns) (nestsAll_iff.mp hms))

/-- What has items is a list or a tuple of them. -/
theorem read_of_sequence? {items : List Value} (hv : h.sequence? v = some items) :
    ∃ r, v = .ref r ∧ (h.read r = some (.list items) ∨ h.read r = some (.tuple items)) := by
  cases v with
  | ref r =>
    simp only [sequence?, cell?] at hv
    split at hv
    · cases hv
      exact ⟨r, rfl, .inl ‹_›⟩
    · cases hv
      exact ⟨r, rfl, .inr ‹_›⟩
    · cases hv
  | _ => cases hv

theorem lt_size_of_sequence? {items : List Value} (hv : h.sequence? v = some items) :
    ∃ r, v = .ref r ∧ r.index < h.size := by
  obtain ⟨r, rfl, hread | hread⟩ := read_of_sequence? hv <;> exact ⟨r, rfl, lt_size_of_read hread⟩

/-! ### One grouping only -/

mutual

/-- A value is grouped in one way. -/
theorem Nests.functional : ∀ {n m : Nest} {v : Value}, h.Nests n v → h.Nests m v → n = m
  | .leaf _, .leaf _, _, ⟨hv, _⟩, ⟨hv', _⟩ => by rw [← hv, ← hv']
  | .leaf _, .group _, _, ⟨_, hs, _⟩, ⟨_, hi, _⟩ => by rw [hs] at hi; cases hi
  | .group _, .leaf _, _, ⟨_, hi, _⟩, ⟨_, hs, _⟩ => by rw [hs] at hi; cases hi
  | .group _, .group _, _, ⟨_, hi, hn⟩, ⟨_, hi', hm⟩ => by
    rw [hi] at hi'
    cases hi'
    rw [NestsAll.functional hn hm]

/-- `Nests.functional`, item by item. -/
theorem NestsAll.functional : ∀ {ns ms : List Nest} {vs : List Value},
    h.NestsAll ns vs → h.NestsAll ms vs → ns = ms
  | [], [], _, _, _ => rfl
  | [], _ :: _, _, hv, ⟨_, _, hv', _⟩ => by rw [NestsAll] at hv; rw [hv] at hv'; cases hv'
  | _ :: _, [], _, ⟨_, _, hv, _⟩, hv' => by rw [NestsAll] at hv'; rw [hv] at hv'; cases hv'
  | _ :: _, _ :: _, _, ⟨_, _, hv, hn, hns⟩, ⟨_, _, hv', hm, hms⟩ => by
    rw [hv] at hv'
    cases hv'
    rw [Nests.functional hn hm, NestsAll.functional hns hms]

end

mutual

/-- Under a value there is one for each number of levels up to its own. -/
theorem Nests.exists_of_le_height : ∀ {n : Nest} {v : Value}, h.Nests n v → ∀ k, 0 < k →
    k ≤ n.height → ∃ r, r.index < h.size ∧ ∃ m, h.Nests m (.ref r) ∧ m.height = k
  | .leaf _, _, _, _, hpos, hk => absurd hpos (Nat.not_lt.mpr hk)
  | .group ns, _, hn@⟨_, hi, hitems⟩, k, hpos, hk => by
    obtain ⟨r, rfl, hlt⟩ := lt_size_of_sequence? hi
    rcases Nat.lt_or_ge k (Nest.group ns).height with hlow | htop
    · exact NestsAll.exists_of_le_height hitems k hpos (Nat.le_of_lt_succ hlow)
    · exact ⟨r, hlt, .group ns, hn, Nat.le_antisymm htop hk⟩

/-- `Nests.exists_of_le_height`, under the items. -/
theorem NestsAll.exists_of_le_height : ∀ {ns : List Nest} {vs : List Value}, h.NestsAll ns vs →
    ∀ k, 0 < k → k ≤ Nest.heightAll ns →
      ∃ r, r.index < h.size ∧ ∃ m, h.Nests m (.ref r) ∧ m.height = k
  | [], _, _, _, hpos, hk => absurd hpos (Nat.not_lt.mpr hk)
  | _ :: _, _, ⟨_, _, _, hn, hns⟩, k, hpos, hk => by
    rcases le_max_iff.mp hk with hhead | hrest
    · exact hn.exists_of_le_height k hpos hhead
    · exact NestsAll.exists_of_le_height hns k hpos hrest

end

/-- There are no more levels than cells. -/
theorem NestsAll.heightAll_le (hn : h.NestsAll ns vs) : Nest.heightAll ns ≤ h.size := by
  refine le_size_of_levels _ hn.exists_of_le_height fun r k l => ?_
  rintro ⟨m, hm, rfl⟩ ⟨m', hm', rfl⟩
  rw [hm.functional hm']

/-! ### Leaves -/

mutual

/-- The leaves are there, and neither lists nor tuples. -/
theorem Nests.isSingle : ∀ {n : Nest} {v : Value}, h.Nests n v → ∀ u ∈ n.leaves, h.IsSingle u
  | .leaf _, _, ⟨hv, hs⟩, u, hu => by
    obtain rfl := List.mem_singleton.mp hu
    exact hv ▸ hs
  | .group _, _, ⟨_, _, hns⟩, u, hu => NestsAll.isSingle hns u hu

/-- `Nests.isSingle`, item by item. -/
theorem NestsAll.isSingle : ∀ {ns : List Nest} {vs : List Value}, h.NestsAll ns vs →
    ∀ u ∈ Nest.leavesAll ns, h.IsSingle u
  | [], _, _, _, hu => absurd hu List.not_mem_nil
  | _ :: _, _, ⟨_, _, _, hn, hns⟩, u, hu =>
    (List.mem_append.mp hu).elim (hn.isSingle u) (NestsAll.isSingle hns u)

end

/-- What is single stays so when a heap is extended. -/
theorem IsSingle.extends (hs : h.IsSingle v) (he : Extends h h') : h'.IsSingle v := by
  cases v with
  | ref r =>
    have hlt := hs.2 r rfl
    refine ⟨?_, fun s hv => Nat.lt_of_lt_of_le (hs.2 s hv) he.size_le⟩
    have hcell : h'.cell? (.ref r) = h.cell? (.ref r) := he.read_eq r hlt
    rw [sequence?, hcell]
    exact hs.1
  | _ => exact ⟨rfl, fun _ hv => by cases hv⟩

/-! ### Flattening -/

/-- Flattening gives the leaves, as long as it goes as deep as the groups. -/
theorem NestsAll.flattenTo : ∀ {k : Nat} {ns : List Nest} {vs : List Value}, h.NestsAll ns vs →
    Nest.heightAll ns < k → h.flattenTo k vs = .ok (Nest.leavesAll ns)
  | k + 1, ns, vs, hn, hk => by
    -- a leaf is its own leaf, and a group is one level lower
    have hone : ∀ n v, n.height ≤ k → h.Nests n v →
        h.leavesOf (h.flattenTo k) v = .ok n.leaves := by
      intro n v hle hn
      cases n with
      | leaf u =>
        obtain ⟨rfl, hs, -⟩ := hn
        rw [leavesOf, hs]
        rfl
      | group ms =>
        obtain ⟨items, hi, hms⟩ := hn
        rw [leavesOf, hi]
        exact hms.flattenTo hle
    have hall : vs.mapM (h.leavesOf (h.flattenTo k)) = .ok (ns.map Nest.leaves) := by
      have hle : ∀ n ∈ ns, n.height ≤ k := fun n hn =>
        Nat.le_of_lt_succ (Nat.lt_of_le_of_lt (Nest.height_le_heightAll hn) hk)
      have hns := nestsAll_iff.mp hn
      clear hn hk
      induction hns with
      | nil => rfl
      | cons hn _ ih =>
        obtain ⟨hhead, hrest⟩ := List.forall_mem_cons.mp hle
        rw [List.mapM_cons, hone _ _ hhead hn, ih hrest]
        rfl
    rw [Heap.flattenTo, hall, Nest.leavesAll_eq_flatten]
    rfl

/-- Flattening gives the leaves. -/
theorem NestsAll.flatten_eq (hn : h.NestsAll ns vs) : h.flatten vs = .ok (Nest.leavesAll ns) :=
  hn.flattenTo (Nat.lt_succ_of_le hn.heightAll_le)

/-- Values that are neither lists nor tuples are flat. -/
theorem flatten_singles (hvs : ∀ v ∈ vs, h.sequence? v = none) : h.flatten vs = .ok vs := by
  have hall : vs.mapM (h.leavesOf (h.flattenTo h.size)) = .ok (vs.map fun v => [v]) := by
    induction vs with
    | nil => rfl
    | cons v vs ih =>
      obtain ⟨hv, hrest⟩ := List.forall_mem_cons.mp hvs
      rw [List.mapM_cons, ih hrest, leavesOf, hv]
      rfl
  rw [flatten, depth, Heap.flattenTo, hall]
  exact congrArg Except.ok (List.flatMap_singleton' vs)

/-- Whatever flattening gives is neither a list nor a tuple, and has what sequences hand down to their
items. -/
theorem flattenTo_forall {P : Value → Prop}
    (hdown : ∀ v items, P v → h.sequence? v = some items → ∀ u ∈ items, P u) :
    ∀ {k : Nat} {vs flat : List Value}, (∀ v ∈ vs, P v) → h.flattenTo k vs = .ok flat →
      ∀ u ∈ flat, P u ∧ h.sequence? u = none
  | 0, _, _, _, hrun => by cases hrun
  | k + 1, vs, flat, hvs, hrun => by
    obtain ⟨parts, hparts, rfl⟩ := exists_of_map_ok hrun
    have hall : ∀ part ∈ parts, ∀ u ∈ part, P u ∧ h.sequence? u = none := by
      refine forall_of_mapM hparts fun v hv part hpart => ?_
      rw [leavesOf] at hpart
      cases hs : h.sequence? v with
      | none =>
        rw [hs] at hpart
        cases hpart
        intro u hu
        obtain rfl := List.mem_singleton.mp hu
        exact ⟨hvs _ hv, hs⟩
      | some items =>
        rw [hs] at hpart
        exact flattenTo_forall hdown (hdown v items (hvs v hv) hs) hpart
    intro u hu
    obtain ⟨part, hpart, hu⟩ := List.mem_flatten.mp hu
    exact hall part hpart u hu

/-- Whatever flattening gives is neither a list nor a tuple. -/
theorem sequence?_of_flatten (hrun : h.flatten vs = .ok flat) : ∀ u ∈ flat, h.sequence? u = none :=
  fun u hu => (flattenTo_forall (P := fun _ => True) (fun _ _ _ _ _ _ => trivial)
    (fun _ _ => trivial) hrun u hu).2

/-! ### Equal lists -/

/-- Lists of the same items are equal. -/
theorem same_lists {r s : Ref} (hr : h.read r = some (.list vs)) (hs : h.read s = some (.list vs)) :
    h.same (.ref r) (.ref s) = true := by
  have hsize : 0 < h.size := Nat.zero_lt_of_lt (lt_size_of_read hr)
  obtain ⟨n, hn⟩ : ∃ n, h.depth = n + 2 := ⟨h.size - 1, by simp [depth]; omega⟩
  have hitem : ∀ v, h.sameTo (n + 1) true v v = true := by
    intro v
    cases v with
    | ref r => simp [sameTo]
    | _ => exact Key.same_refl (.atom _)
  have hagree : agree (h.sameTo (n + 1) true) vs vs = true := by
    clear hr hs
    induction vs with
    | nil => rfl
    | cons v vs ih => rw [agree, hitem, ih, Bool.and_self]
  rw [same, hn, sameTo]
  simp only [contentAt, hr, hs, sameCell, hagree, Bool.or_true]

end Heap

namespace Library

open Heap (Extends)

variable {κ : Type} {call : Caller κ} {w : World κ} {v : Value} {ns : List Nest}
  {items flat : List Value}

/-- Whether the library's function gives a new list of some items for a value, and leaves everything
else as it was. -/
def Flattens (call : Caller κ) (w : World κ) (v : Value) (flat : List Value) : Prop :=
  ∃ r h', callFunction call "flatten_values" (.of [v]) w = .ok (.ref r) { w with heap := h' } ∧
    Extends w.heap h' ∧ w.heap.size ≤ r.index ∧ h'.read r = some (.list flat)

theorem flattens_of_flatten (hv : w.heap.sequence? v = some items)
    (hflat : w.heap.flatten items = .ok flat) : Flattens call w v flat := by
  obtain ⟨r, rfl, hread⟩ := Heap.read_of_sequence? hv
  have helements : Heap.elements (.ref r) w.heap = .ok items w.heap := by
    rcases hread with hread | hread <;>
    · simp only [Heap.elements, run_bind_ok run_get, hread]
      rfl
  have hask : Heap.ask (fun h => h.flatten items) w.heap = .ok flat w.heap := by
    rw [Heap.ask, hflat]
  refine ⟨w.heap.next, w.heap.push (.list flat), ?_, Heap.extends_push _ _, Nat.le_refl _,
    Heap.read_alloc_new _ _⟩
  exact run_onHeap_ok ((run_bind_ok helements).trans (run_bind_ok hask))

theorem flattens_nested (hv : w.heap.Nests (.group ns) v) :
    Flattens call w v (Nest.leavesAll ns) := by
  obtain ⟨items, hi, hns⟩ := hv
  exact flattens_of_flatten hi hns.flatten_eq

/-- For a list or a tuple of values that are nested in lists and tuples, the library's function gives a
new list of the leaves from left to right, none of which is a list or a tuple.  Sequences one after the
other give their leaves one after the other.  Grouping any consecutive items at any depth changes
nothing, and a list that was given is given again as an equal list. -/
theorem flattens_leaves (call : Caller κ) (hv : w.heap.Nests (.group ns) v) :
    Flattens call w v (Nest.leavesAll ns) ∧ (∀ u ∈ Nest.leavesAll ns, w.heap.sequence? u = none) ∧
    (∀ u ms xs ys both, w.heap.Nests (.group ms) u → w.heap.sequence? v = some xs →
      w.heap.sequence? u = some ys → w.heap.sequence? both = some (xs ++ ys) →
      Flattens call w both (Nest.leavesAll ns ++ Nest.leavesAll ms)) ∧
    (∀ u ms, Nest.Regroups ns ms ∨ Nest.Regroups ms ns → w.heap.Nests (.group ms) u →
      Flattens call w u (Nest.leavesAll ns)) ∧
    ∀ r w', callFunction call "flatten_values" (.of [v]) w = .ok (.ref r) w' →
      ∃ s w'', callFunction call "flatten_values" (.of [.ref r]) w' = .ok (.ref s) w'' ∧
        w''.heap.read s = some (.list (Nest.leavesAll ns)) ∧
        w''.heap.same (.ref s) (.ref r) = true := by
  obtain ⟨items, hi, hns⟩ := id hv
  refine ⟨flattens_nested hv, fun u hu => (hns.isSingle u hu).1,
    fun u ms xs ys both hu hxs hys hboth => ?_, fun u ms hr hu => ?_, fun r w' hrun => ?_⟩
  · obtain ⟨items', hi', hms⟩ := hu
    obtain rfl := Option.some.inj (hi.symm.trans hxs)
    obtain rfl := Option.some.inj (hi'.symm.trans hys)
    rw [← Nest.leavesAll_append]
    exact flattens_of_flatten hboth (hns.append hms).flatten_eq
  · have heq : Nest.leavesAll ns = Nest.leavesAll ms :=
      hr.elim (·.leavesAll_eq) fun hr => hr.leavesAll_eq.symm
    rw [heq]
    exact flattens_nested hu
  · obtain ⟨r', h', hrun', he, -, hread⟩ : Flattens call w v _ := flattens_nested hv
    obtain ⟨rfl, rfl⟩ : r' = r ∧ { w with heap := h' } = w' := by
      rw [hrun'] at hrun
      cases hrun
      exact ⟨rfl, rfl⟩
    have hlist : ({ w with heap := h' } : World κ).heap.sequence? (.ref r') =
        some (Nest.leavesAll ns) := by
      simp only [Heap.sequence?, Heap.cell?, hread]
    -- the leaves are flat already
    have hflat := Heap.flatten_singles fun u hu => ((hns.isSingle u hu).extends he).1
    obtain ⟨s, h'', hrun'', he', -, hread'⟩ : Flattens call _ _ _ := flattens_of_flatten hlist hflat
    exact ⟨s, _, hrun'', hread', Heap.same_lists hread' (he'.read_of_some hread)⟩

/-- A list of a text, a tuple of a text and an empty list, and a dictionary; and a list in which the
first two are grouped. -/
def nestedWorld : World Unit where
  heap := ⟨#[.dict [], .list [], .tuple [.ofText "b", .ref ⟨1⟩],
    .list [.ofText "a", .ref ⟨2⟩, .ref ⟨0⟩], .tuple [.ofText "a", .ref ⟨2⟩],
    .list [.ref ⟨4⟩, .ref ⟨0⟩]], 0⟩
  current := none
  log := []
  constants := []
  client := ()

/-- The tuple of a text and an empty list. -/
def nestedPair : Nest := .group [.leaf (.ofText "b"), .group []]

theorem nests_nestedWorld :
    nestedWorld.heap.Nests (.group [.leaf (.ofText "a"), nestedPair, .leaf (.ref ⟨0⟩)]) (.ref ⟨3⟩) ∧
    nestedWorld.heap.Nests (.group [.group [.leaf (.ofText "a"), nestedPair], .leaf (.ref ⟨0⟩)])
      (.ref ⟨5⟩) := by
  simp [Heap.Nests, Heap.NestsAll, Heap.IsSingle, Heap.sequence?, Heap.cell?, Heap.read, Heap.size,
    nestedPair, nestedWorld, Value.ofText]

theorem flattens_leaves_sample :
    Flattens (fun _ _ => throw .tooDeep) nestedWorld (.ref ⟨3⟩)
      [.ofText "a", .ofText "b", .ref ⟨0⟩] ∧
    Flattens (fun _ _ => throw .tooDeep) nestedWorld (.ref ⟨5⟩)
      [.ofText "a", .ofText "b", .ref ⟨0⟩] := by
  obtain ⟨hlist, hgrouped⟩ := nests_nestedWorld
  obtain ⟨hflat, -, -, hregroup, -⟩ := flattens_leaves (fun _ _ => throw .tooDeep) hlist
  exact ⟨hflat, hregroup _ _ (.inl (.group [] [_, _] [_])) hgrouped⟩

end Library

end PageMeta
