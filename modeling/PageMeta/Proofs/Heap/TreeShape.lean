import Mathlib.Data.List.Pairwise
import PageMeta.Proofs.Heap.Acyclic

/-!
# Values that are trees

A value that shows a tree has no cycle, but what it consists of can still stand in two places of it.
A value is a tree itself if no map and no list does.

## Key results

- `Reads.acyclic`: what shows a tree has no cycle
- `IsTree.acyclic`, `IsTree.mapsOnce`: a tree has no cycle, and no map twice
- `build_isTree`: what is built from new cells is a tree
-/

namespace PageMeta

namespace Heap

/-- Whether no attribute map stands in two places of a value. -/
def MapsOnce (h : Heap) (v : Value) : Prop :=
  ∀ way way' r, h.at? .stored v way = some (.ref r) → h.at? .stored v way' = some (.ref r) →
    h.isMap (.ref r) = true → way = way'

/-- Whether a value is a tree: no map and no list stands in two places of it. -/
def IsTree (h : Heap) (v : Value) : Prop :=
  ∀ way way' r c, h.at? .stored v way = some (.ref r) → h.at? .stored v way' = some (.ref r) →
    h.read r = some c → c.isContainer = true → way = way'

/-- Whether two values have no map and no list in common. -/
def Separate (h : Heap) (v w : Value) : Prop :=
  ∀ r, h.Opens .stored v r → h.Opens .stored w r → h.Vacant r

variable {h h' : Heap} {view : View} {within : Ref → Prop} {t u : Tree String} {v w : Value}

/-! ### What shows a tree has no cycle -/

/-- What stands in a place shows a tree that is lower by the way to it. -/
theorem Reads.height_at?_le {way : List Branch} (hr : h.Reads view within t v)
    (hw : h.at? view v way = some w) (hu : h.Reads view within u w) :
    u.height + way.length ≤ t.height := by
  induction way generalizing t v with
  | nil => cases hw; rw [hu.functional hr]; simp
  | cons b way ih =>
    obtain ⟨x, hx, hw⟩ := Option.bind_eq_some_iff.mp hw
    obtain ⟨s, hlower, hs⟩ := hr.child?_lower hx
    have hrest := ih hs hw
    simp only [List.length_cons]
    omega

/-- What shows a tree has no cycle: on the way back to itself a value would have to get lower. -/
theorem Reads.acyclic (hr : h.Reads view within t v) : h.Acyclic view v := by
  intro way below w hw hb
  obtain ⟨u, hu⟩ := hr.of_at? hw
  have hle := hu.height_at?_le hb hu
  exact List.length_eq_zero_iff.mp (by omega)

/-! ### Trees -/

/-- A tree has no map twice, and no cycle. -/
theorem IsTree.mapsOnce (ht : IsTree h v) : MapsOnce h v := by
  intro way way' r hw hw' hmap
  unfold isMap at hmap
  split at hmap
  · rename_i data hc; exact ht way way' r _ hw hw' hc rfl
  · cases hmap

/-- What has a step down is a map or a list. -/
theorem container_of_child? {b : Branch} (hb : h.child? view v b = some w) :
    ∃ r c, v = .ref r ∧ h.read r = some c ∧ c.isContainer = true := by
  cases b with
  | item index =>
    obtain ⟨items, hi, -⟩ := Option.bind_eq_some_iff.mp hb
    obtain ⟨r, rfl, -⟩ := ref_of_items? hi
    unfold items? cell? at hi
    split at hi
    · rename_i hr; exact ⟨r, _, rfl, hr, rfl⟩
    · rename_i hr; exact ⟨r, _, rfl, hr, rfl⟩
    · cases hi
  | entry name =>
    obtain ⟨entries, he, -⟩ := Option.bind_eq_some_iff.mp hb
    obtain ⟨r, rfl, ⟨hr, -⟩ | ⟨d, hr, -⟩⟩ := cell_of_entries? he
    · exact ⟨r, _, rfl, hr, rfl⟩
    · exact ⟨r, _, rfl, hr, rfl⟩

theorem IsTree.acyclic (ht : IsTree h v) : h.Acyclic .stored v := by
  intro way below w hw hb
  cases below with
  | nil => rfl
  | cons b below =>
    obtain ⟨x, hx, -⟩ := Option.bind_eq_some_iff.mp hb
    obtain ⟨r, c, rfl, hr, hc⟩ := container_of_child? hx
    have hagain : h.at? .stored v (way ++ b :: below) = some (.ref r) := by
      rw [at?_append, hw, Option.bind_some]
      exact hb
    have hlen := congrArg List.length (ht way _ r c hw hagain hr hc)
    simp at hlen

theorem Separate.symm (hs : Separate h v w) : Separate h w v := fun r hv hw => hs r hw hv

/-- A value is a tree if what stands one step down are separate trees without the value itself. -/
theorem isTree_of_children
    (hself : ∀ r b w, v = .ref r → h.child? .stored v b = some w → ¬ h.Opens .stored w r)
    (hchild : ∀ b w, h.child? .stored v b = some w → IsTree h w)
    (hsep : ∀ b b' w w', h.child? .stored v b = some w → h.child? .stored v b' = some w' →
      b ≠ b' → Separate h w w') : IsTree h v := by
  intro way way' r c hw hw' hr hc
  have hopens : ∀ {w way}, h.at? .stored w way = some (.ref r) → h.Opens .stored w r :=
    fun hat => ⟨_, _, hat, own_ref_mem r⟩
  -- two ways to one cell are both empty, or begin with the same step; a cell is not below itself,
  -- and two parts have nothing in common
  cases way with
  | nil =>
    cases way' with
    | nil => rfl
    | cons b' way' =>
      obtain ⟨w', hb', hat'⟩ := Option.bind_eq_some_iff.mp hw'
      exact absurd (hopens hat') (hself r b' w' (Option.some.inj hw) hb')
  | cons b way =>
    obtain ⟨w, hb, hat⟩ := Option.bind_eq_some_iff.mp hw
    cases way' with
    | nil => exact absurd (hopens hat) (hself r b w (Option.some.inj hw') hb)
    | cons b' way' =>
      obtain ⟨w', hb', hat'⟩ := Option.bind_eq_some_iff.mp hw'
      by_cases heq : b = b'
      · subst heq
        rw [hb] at hb'
        cases hb'
        rw [hchild b w hb way way' r c hat hat' hr hc]
      · have hvacant := hsep b b' w w' hb hb' heq r (hopens hat) (hopens hat')
        rw [hvacant c hr] at hc
        cases hc

/-! ### What is built from new cells -/

theorem Reads.within_of_opens (hr : h.Reads view within t v) {r : Ref} (ho : h.Opens view v r) :
    within r := by
  obtain ⟨way, w, hw, hown⟩ := ho
  obtain ⟨u, hu⟩ := hr.of_at? hw
  exact hu.own_within r hown

/-- Heaps that agree on the cells of a reading open the same cells. -/
theorem Reads.opens_of_agree (hr : h.Reads view within t v) (ha : Agree within h h') {r : Ref}
    (ho : h'.Opens view v r) : h.Opens view v r := by
  obtain ⟨way, w, hw, hown⟩ := ho
  rw [hr.at?_agree ha] at hw
  obtain ⟨u, hu⟩ := hr.of_at? hw
  rw [own_agree ha hu.own_within] at hown
  exact ⟨way, w, hw, hown⟩

theorem Reads.opens_of_extends (hr : h.Reads view within t v) (he : Extends h h') {r : Ref}
    (ho : h'.Opens view v r) : h.Opens view v r :=
  hr.allocated.opens_of_agree (he.agree fun _ hw => hw.2) ho

/-- A tree stays one as long as its cells stay. -/
theorem IsTree.agree (ht : IsTree h v) (hr : h.Reads .stored within t v)
    (ha : Agree within h h') : IsTree h' v := by
  intro way way' r c hw hw' hc hcont
  rw [hr.at?_agree ha] at hw hw'
  have hwithin := hr.within_of_opens ⟨way, _, hw, own_ref_mem r⟩
  exact ht way way' r c hw hw' ((ha.read_eq r hwithin).symm.trans hc) hcont

theorem IsTree.extends (ht : IsTree h v) (hr : h.Reads .stored within t v) (he : Extends h h') :
    IsTree h' v := ht.agree hr.allocated (he.agree fun _ hw => hw.2)

/-- Values stay separate as long as their cells stay. -/
theorem Separate.agree (hs : Separate h v w) (hv : h.Reads .stored within t v)
    {wider : Ref → Prop} (hw : h.Reads .stored wider u w) (ha : Agree within h h')
    (hb : Agree wider h h') : Separate h' v w := by
  intro r hrv hrw c hc
  have hrv' := hv.opens_of_agree ha hrv
  have hread := ha.read_eq r (hv.within_of_opens hrv')
  exact hs r hrv' (hw.opens_of_agree hb hrw) c (hread.symm.trans hc)

/-- Values that were there are separate as before. -/
theorem Separate.extends (hs : Separate h v w) (hv : h.Reads .stored within t v)
    {wider : Ref → Prop} (hw : h.Reads .stored wider u w) (he : Extends h h') :
    Separate h' v w :=
  hs.agree hv.allocated hw.allocated (he.agree fun _ hr => hr.2) (he.agree fun _ hr => hr.2)

/-- What was there is separate from what is made of cells that were vacant. -/
theorem separate_of_vacant (hv : h.Reads .stored within t v) (he : Extends h h')
    (hw : h'.Reads .stored h.Vacant u w) : Separate h' v w := by
  intro r hrv hrw c hc
  have hlt := hv.opens_lt (hv.opens_of_extends he hrv)
  exact hw.within_of_opens hrw c ((he.read_eq r hlt).symm.trans hc)

/-- A new list of separate trees is a tree. -/
theorem isTree_newList {ts : List (Tree String)} {vs : List Value}
    (hr : h.ReadsItems .stored within ts vs) (htree : ∀ v ∈ vs, IsTree h v)
    (hsep : vs.Pairwise (Separate h)) : IsTree (h.push (.list vs)) (.ref h.next) := by
  have he := extends_push h (.list vs)
  have hread := hr.reads_of_mem
  have hchild : ∀ b w, (h.push (.list vs)).child? .stored (.ref h.next) b = some w →
      ∃ index, b = .item index ∧ vs[index]? = some w := by
    intro b w hb
    cases b with
    | entry name => simp [Heap.child?, entries?, cell?] at hb
    | item index => exact ⟨index, rfl, by simpa [Heap.child?, items?, cell?] using hb⟩
  refine isTree_of_children (fun r b w hv hb ho => ?_) (fun b w hb => ?_)
    fun b b' w w' hb hb' hne => ?_
  · -- the new cell is in none of the items, which were there before it
    cases hv
    obtain ⟨index, -, hget⟩ := hchild b w hb
    obtain ⟨t, ht⟩ := hread w (List.mem_of_getElem? hget)
    exact absurd (ht.opens_lt (ht.opens_of_extends he ho)) (Nat.lt_irrefl _)
  · obtain ⟨index, -, hget⟩ := hchild b w hb
    have hw := List.mem_of_getElem? hget
    obtain ⟨t, ht⟩ := hread w hw
    exact (htree w hw).extends ht he
  · obtain ⟨i, rfl, hi⟩ := hchild b w hb
    obtain ⟨j, rfl, hj⟩ := hchild b' w' hb'
    obtain ⟨t, ht⟩ := hread w (List.mem_of_getElem? hi)
    obtain ⟨u, hu⟩ := hread w' (List.mem_of_getElem? hj)
    obtain ⟨hilt, rfl⟩ := List.getElem?_eq_some_iff.mp hi
    obtain ⟨hjlt, rfl⟩ := List.getElem?_eq_some_iff.mp hj
    -- of two items one is the first, and they are separate in that order
    have hpair := List.pairwise_iff_getElem.mp hsep
    rcases Nat.lt_trichotomy i j with hlt | rfl | hgt
    · exact (hpair i j hilt hjlt hlt).extends ht hu he
    · exact absurd rfl hne
    · exact ((hpair j i hjlt hilt hgt).extends hu ht he).symm

/-- A new map of separate trees is a tree. -/
theorem isTree_newMap {ts : List (String × Tree String)} {es : Entries Key Value}
    (hr : h.ReadsEntries .stored within ts es) (htree : ∀ p ∈ es, IsTree h p.2)
    (hsep : es.Pairwise fun p q => Separate h p.2 q.2) :
    IsTree ((h.push (.dict es)).push (.map (.ref h.next))) (.ref (h.push (.dict es)).next) := by
  have he := (extends_push h (.dict es)).trans (extends_push (h.push (.dict es)) (.map (.ref h.next)))
  generalize hg : (h.push (.dict es)).push (.map (.ref h.next)) = g at he
  have hmap : g.read (h.push (.dict es)).next = some (.map (.ref h.next)) := by
    rw [← hg]; exact read_alloc_new _ _
  have hdict : g.read h.next = some (.dict es) := by
    rw [← hg]; exact (extends_push _ _).read_of_some (read_alloc_new h _)
  have hchild : ∀ b w, g.child? .stored (.ref (h.push (.dict es)).next) b = some w →
      ∃ p ∈ es, b = .entry (g.keyText p.1) ∧ p.2 = w := by
    intro b w hb
    cases b with
    | item index => simp [Heap.child?, items?, cell?, hmap] at hb
    | entry name =>
      simp only [Heap.child?, entries?, cell?, hmap, hdict] at hb
      obtain ⟨p, hp, heq⟩ := List.mem_map.mp (Entries.mem_of_get? hb)
      obtain ⟨hname, hvalue⟩ := Prod.mk.inj heq
      exact ⟨p, hp, by rw [hname], hvalue⟩
  refine isTree_of_children (fun r b w hv hb ho => ?_) (fun b w hb => ?_)
    fun b b' w w' hb hb' hne => ?_
  · -- both new cells are in none of the values, which were there before them
    cases hv
    obtain ⟨p, hp, -, rfl⟩ := hchild b w hb
    obtain ⟨t, ht⟩ := hr.reads_of_mem p hp
    have hlt := ht.opens_lt (ht.opens_of_extends he ho)
    have hge : h.size ≤ (h.push (.dict es)).next.index := by
      simp only [next, size, push, Array.size_push]
      omega
    exact absurd hlt (Nat.not_lt.mpr hge)
  · obtain ⟨p, hp, -, rfl⟩ := hchild b w hb
    obtain ⟨t, ht⟩ := hr.reads_of_mem p hp
    exact (htree p hp).extends ht he
  · obtain ⟨p, hp, rfl, rfl⟩ := hchild b w hb
    obtain ⟨q, hq, rfl, rfl⟩ := hchild b' w' hb'
    obtain ⟨t, ht⟩ := hr.reads_of_mem p hp
    obtain ⟨u, hu⟩ := hr.reads_of_mem q hq
    have hpq : p ≠ q := fun heq => hne (by rw [heq])
    -- two entries are separate in whichever order they come
    have : Std.Symm fun p q : Key × Value => Separate h p.2 q.2 := ⟨fun _ _ hs => hs.symm⟩
    exact (hsep.forall hp hq hpq).extends ht hu he

mutual

/-- What is built from new cells is a tree. -/
theorem build_isTree : ∀ {u : Tree Key} {t : Tree String} {h h' : Heap} {w : Value},
    u.Named h.IsLeaf t → t.Distinct → build .wrapped u h = .ok w h' → IsTree h' w
  | .leaf v, _, h, h', w, ⟨ht, hl⟩, _, hw => by
    rw [build, settle_of_isMade hl.1] at hw
    cases hw
    intro way way' r c hat hat' hr hc
    -- a leaf has no steps down, so the empty way is the only one
    have hnil : ∀ {way}, h.at? .stored v way = some (.ref r) → way = [] := by
      intro way hat
      cases way with
      | nil => rfl
      | cons b way =>
        obtain ⟨x, hx, -⟩ := Option.bind_eq_some_iff.mp hat
        cases b <;> simp [Heap.child?, hl.items?_eq_none, hl.entries?_eq_none] at hx
    rw [hnil hat, hnil hat']
  | .list us, _, h, h', w, ⟨ts, ht, hus⟩, hd, hw => by
    subst ht
    obtain ⟨vs, h₁, hvs, -, hr⟩ := buildList_reads .wrapped hus hd
    obtain ⟨htree, hsep⟩ := buildList_isTree hus hd hvs
    rw [build] at hw
    simp only [bind, EStateM.bind, hvs] at hw
    cases hw
    exact isTree_newList hr htree hsep
  | .map us, _, h, h', w, ⟨ts, ht, hus⟩, hd, hw => by
    subst ht
    obtain ⟨es, h₁, hes, -, hr⟩ := buildEntries_reads .wrapped hus hd.2
    obtain ⟨htree, hsep⟩ := buildEntries_isTree hus hd.2 hes
    rw [build] at hw
    simp only [bind, EStateM.bind, hes] at hw
    cases hw
    exact isTree_newMap hr htree hsep

/-- `build_isTree`, item by item. -/
theorem buildList_isTree : ∀ {us : List (Tree Key)} {ts : List (Tree String)} {h h' : Heap}
    {vs : List Value}, Tree.NamedItems h.IsLeaf us ts → Tree.DistinctList ts →
    buildList .wrapped us h = .ok vs h' → (∀ v ∈ vs, IsTree h' v) ∧ vs.Pairwise (Separate h')
  | [], _, h, h', vs, _, _, hvs => by
    cases hvs
    exact ⟨fun v hv => absurd hv List.not_mem_nil, List.Pairwise.nil⟩
  | u :: us, _, h, h', vs, ⟨t, ts, hts, hu, hus⟩, hd, hvs => by
    subst hts
    obtain ⟨v, h₁, hv, he₁, hr⟩ := build_reads .wrapped hu hd.1
    have hus₁ := hus.imp fun hl => hl.extends he₁
    obtain ⟨vs', h₂, hvs', he₂, hrs⟩ := buildList_reads .wrapped hus₁ hd.2
    have htree := build_isTree hu hd.1 hv
    obtain ⟨htrees, hsep⟩ := buildList_isTree hus₁ hd.2 hvs'
    rw [buildList] at hvs
    simp only [bind, EStateM.bind, hv, hvs'] at hvs
    cases hvs
    refine ⟨List.forall_mem_cons.mpr ⟨htree.extends hr he₂, htrees⟩,
      List.pairwise_cons.mpr ⟨fun w hw => ?_, hsep⟩⟩
    obtain ⟨s, hs⟩ := hrs.reads_of_mem w hw
    exact separate_of_vacant hr he₂ hs

/-- `build_isTree`, entry by entry. -/
theorem buildEntries_isTree : ∀ {us : List (Key × Tree Key)} {ts : List (String × Tree String)}
    {h h' : Heap} {es : Entries Key Value}, Tree.NamedEntries h.IsLeaf us ts →
    Tree.DistinctEntries ts → buildEntries .wrapped us h = .ok es h' →
    (∀ p ∈ es, IsTree h' p.2) ∧ es.Pairwise fun p q => Separate h' p.2 q.2
  | [], _, h, h', es, _, _, hes => by
    cases hes
    exact ⟨fun p hp => absurd hp List.not_mem_nil, List.Pairwise.nil⟩
  | (key, u) :: us, _, h, h', es, ⟨name, t, ts, hts, hk, hu, hus⟩, hd, hes => by
    subst hts
    obtain ⟨key', h₁, hkey, -, hc⟩ := settleKey_text? (h := h) hk
    have he₁ := extends_of_cells hc
    have hu₁ := hu.imp fun hl => hl.extends he₁
    obtain ⟨v, h₂, hv, he₂, hr⟩ := build_reads .wrapped hu₁ hd.1
    have hus₂ := hus.imp fun hl => hl.extends (he₁.trans he₂)
    obtain ⟨es', h₃, hes', he₃, hrs⟩ := buildEntries_reads .wrapped hus₂ hd.2
    have htree := build_isTree hu₁ hd.1 hv
    obtain ⟨htrees, hsep⟩ := buildEntries_isTree hus₂ hd.2 hes'
    rw [buildEntries] at hes
    simp only [bind, EStateM.bind, hkey, hv, hes'] at hes
    cases hes
    refine ⟨List.forall_mem_cons.mpr ⟨htree.extends hr he₃, htrees⟩,
      List.pairwise_cons.mpr ⟨fun q hq => ?_, hsep⟩⟩
    obtain ⟨s, hs⟩ := hrs.reads_of_mem q hq
    exact separate_of_vacant hr he₃ hs

end

end Heap

end PageMeta
