import PageMeta.Proofs.Heap.Acyclic

/-!
# Sound heaps

The representation invariant of attribute maps, as a property of the heap that they stand in: every
map keeps its entries in a dictionary of its own, with texts as keys, and what can be reached from
it through maps and lists is no dictionary and no tuple.

The places of the parts of a sound heap can be read, so a map without cycles shows a tree.

## Key results

- `Sound.extends`, `Sound.make`, `Sound.write`: new cells and writes that keep a heap sound
- `Sound.exists_reads`: an attribute map without cycles shows a tree
- `Sound.legible_given`: when what is handed in can be read
-/

namespace PageMeta

/-- Whether an attribute map can hold a cell: not a dictionary and not a tuple. -/
def Cell.isStorable : Cell → Bool
  | .dict _ | .tuple _ => false
  | _ => true

/-- Whether all keys are texts. -/
def Entries.TextKeys {α : Type} (entries : Entries Key α) : Prop :=
  ∀ p ∈ entries, ∃ s, p.1.text? = some s

namespace Heap

theorem textKeys_texts {α : Type} (entries : Entries String α) : (textKeys entries).TextKeys := by
  intro p hp
  obtain ⟨q, -, rfl⟩ := List.mem_map.mp hp
  exact ⟨q.1, rfl⟩

/-- Whether a value is made, and the cell that it refers to is there. -/
def Fine (h : Heap) (v : Value) : Prop := v.isMade = true ∧ ∀ r, v = .ref r → r.index < h.size

/-- Whether a value can be reached from another through attribute maps and lists. -/
inductive Within (h : Heap) (v : Value) : Value → Prop
  | self : Within h v v
  | item {r : Ref} {items : List Value} {w : Value} : Within h v (.ref r) →
      h.read r = some (.list items) → w ∈ items → Within h v w
  | entry {r d : Ref} {entries : Entries Key Value} {p : Key × Value} : Within h v (.ref r) →
      h.read r = some (.map (.ref d)) → h.read d = some (.dict entries) → p ∈ entries →
      Within h v p.2

/-- Whether no dictionary and no tuple can be reached through attribute maps and lists. -/
def Storable (h : Heap) (v : Value) : Prop :=
  ∀ r c, h.Within v (.ref r) → h.read r = some c → c.isStorable = true

/-- Whether the parts of a cell are as they should be, apart from what can be reached from them. -/
def FineCell (h : Heap) : Cell → Prop
  | .list items | .tuple items => ∀ v ∈ items, h.Fine v
  | .dict entries => entries.Apart ∧ ∀ p ∈ entries, h.Fine p.2
  | .map data => ∃ d entries, data = .ref d ∧ h.read d = some (.dict entries) ∧ entries.TextKeys
  | _ => True

/-- The representation invariant. -/
structure Sound (h : Heap) : Prop where
  cells : ∀ r c, h.read r = some c → h.FineCell c
  /-- A dictionary belongs to one map only. -/
  own : ∀ m m' d, h.read m = some (.map (.ref d)) → h.read m' = some (.map (.ref d)) → m = m'
  stored : ∀ m data, h.read m = some (.map data) → h.Storable (.ref m)

variable {h h' : Heap} {view : View} {within : Ref → Prop} {v w : Value}

/-! ### What can be reached -/

theorem Within.trans {u : Value} (hv : h.Within v u) (hu : h.Within u w) : h.Within v w := by
  induction hu with
  | self => exact hv
  | item _ hr hw ih => exact ih.item hr hw
  | entry _ hr hd hp ih => exact ih.entry hr hd hp

theorem Storable.of_within (hv : h.Storable v) (hw : h.Within v w) : h.Storable w :=
  fun r c hr => hv r c (hw.trans hr)

theorem Fine.extends (hv : h.Fine v) (he : Extends h h') : h'.Fine v :=
  ⟨hv.1, fun r hr => Nat.lt_of_lt_of_le (hv.2 r hr) he.size_le⟩

/-- What a value shows is made and there. -/
theorem Reads.fine {t : Tree String} (hr : h.Reads view within t v) : h.Fine v := by
  have hlt : ∀ r, v = .ref r → r.index < h.size := fun r he => by
    subst he
    exact hr.own_lt r (own_ref_mem r)
  refine ⟨?_, hlt⟩
  cases t with
  | leaf u => exact hr.2.1.1
  | list ts => obtain ⟨items, hi, -⟩ := hr; obtain ⟨r, rfl, -⟩ := ref_of_items? hi; rfl
  | map ts => obtain ⟨entries, he, -⟩ := hr; obtain ⟨r, rfl, -⟩ := ref_of_entries? he; rfl

theorem ReadsItems.fine {ts : List (Tree String)} {vs : List Value}
    (hr : h.ReadsItems view within ts vs) : ∀ v ∈ vs, h.Fine v := by
  induction ts generalizing vs with
  | nil => rw [ReadsItems] at hr; simp [hr]
  | cons t ts ih =>
    obtain ⟨v, rest, rfl, ht, hrest⟩ := hr
    exact List.forall_mem_cons.mpr ⟨ht.fine, ih hrest⟩

/-- In a sound heap, what is reached from a value that is there is there. -/
theorem Sound.fine_of_within (hs : h.Sound) (hv : h.Fine v) (hw : h.Within v w) : h.Fine w := by
  induction hw with
  | self => exact hv
  | item _ hr hw _ => exact hs.cells _ _ hr _ hw
  | entry _ _ hd hp _ => exact (hs.cells _ _ hd).2 _ hp

/-- An extension leads from an old value to old values only. -/
theorem Sound.within_of_extends (hs : h.Sound) (he : Extends h h') (hv : h.Fine v)
    (hw : h'.Within v w) : h.Within v w := by
  induction hw with
  | self => exact .self
  | item _ hr hw ih =>
    have hlt := (hs.fine_of_within hv ih).2 _ rfl
    exact ih.item ((he.read_eq _ hlt).symm.trans hr) hw
  | entry _ hr hd hp ih =>
    have hlt := (hs.fine_of_within hv ih).2 _ rfl
    have hr' := (he.read_eq _ hlt).symm.trans hr
    obtain ⟨d, entries, heq, hd', -⟩ := hs.cells _ _ hr'
    cases heq
    exact ih.entry hr' ((he.read_eq _ (lt_size_of_read hd')).symm.trans hd) hp

theorem Sound.storable_extends (hs : h.Sound) (he : Extends h h') (hv : h.Fine v)
    (hst : h.Storable v) : h'.Storable v := by
  intro r c hw hr
  have hw' := hs.within_of_extends he hv hw
  have hlt := (hs.fine_of_within hv hw').2 r rfl
  exact hst r c hw' ((he.read_eq r hlt).symm.trans hr)

/-- What shows the content of an attribute map can be stored. -/
theorem Reads.storable {t : Tree String} (hr : h.Reads .stored within t v) : h.Storable v := by
  -- everything within shows a tree, by the way on which it is reached
  have hread : ∀ w, h.Within v w → ∃ u, h.Reads .stored within u w := by
    intro w hw
    induction hw with
    | self => exact ⟨t, hr⟩
    | @item r items w _ hr' hw ih =>
      obtain ⟨u, hu⟩ := ih
      have hi : h.items? .stored (.ref r) = some items := by simp [items?, cell?, hr']
      obtain ⟨index, hindex⟩ := List.getElem?_of_mem hw
      exact hu.child? (b := .item index) (by rw [Heap.child?, hi, Option.bind_some, hindex])
    | @entry r d entries p _ hr' hd hp ih =>
      obtain ⟨u, hu⟩ := ih
      have he : h.entries? .stored (.ref r) = some entries := by simp [entries?, cell?, hr', hd]
      obtain ⟨us, rfl, ha, hus⟩ := hu.map_of_entries? he
      exact hu.child? (hus.child?_of_mem he (nodup_of_ne_given (by decide) ha hus) p hp)
  intro r c hw hc
  obtain ⟨u, hu⟩ := hread _ hw
  -- what shows a tree is a map, a list or a scalar, all of which can be stored
  cases u with
  | leaf u =>
    obtain ⟨c', hc', hn⟩ := hu.2.1.2 r rfl
    rw [hc] at hc'
    cases hc'
    cases c <;> first | rfl | cases hn
  | list us =>
    obtain ⟨items, hi, -⟩ := hu
    cases c <;> first | rfl | simp [items?, cell?, hc] at hi
  | map us =>
    obtain ⟨entries, he, -⟩ := hu
    cases c <;> first | rfl | simp [entries?, cell?, hc] at he

/-! ### New cells -/

theorem FineCell.extends {c : Cell} (hc : h.FineCell c) (he : Extends h h') : h'.FineCell c := by
  cases c with
  | list items => exact fun v hv => (hc v hv).extends he
  | tuple items => exact fun v hv => (hc v hv).extends he
  | dict entries => exact ⟨hc.1, fun p hp => (hc.2 p hp).extends he⟩
  | map data =>
    obtain ⟨d, entries, hdata, hd, ht⟩ := hc
    exact ⟨d, entries, hdata, he.read_of_some hd, ht⟩
  | _ => trivial

/-- New cells that are no maps keep a heap sound. -/
theorem Sound.extends (hs : h.Sound) (he : Extends h h')
    (hnew : ∀ r c, h.size ≤ r.index → h'.read r = some c → h'.FineCell c ∧ ∀ data, c ≠ .map data) :
    h'.Sound := by
  have hold : ∀ m data, h'.read m = some (.map data) → h.read m = some (.map data) := by
    intro m data hm
    rcases Nat.lt_or_ge m.index h.size with hlt | hge
    · exact (he.read_eq m hlt).symm.trans hm
    · exact absurd rfl ((hnew m _ hge hm).2 data)
  refine ⟨fun r c hr => ?_, fun m m' d hm hm' => hs.own m m' d (hold m _ hm) (hold m' _ hm'),
    fun m data hm => ?_⟩
  · rcases Nat.lt_or_ge r.index h.size with hlt | hge
    · exact (hs.cells r c ((he.read_eq r hlt).symm.trans hr)).extends he
    · exact (hnew r c hge hr).1
  · have hm' := hold m data hm
    have hfine : h.Fine (.ref m) := ⟨rfl, fun r heq => by cases heq; exact lt_size_of_read hm'⟩
    exact hs.storable_extends he hfine (hs.stored m data hm')

/-- A heap with the cells of a sound one is sound. -/
theorem Sound.of_cells (hs : h.Sound) (hc : h'.cells = h.cells) : h'.Sound := by
  refine hs.extends (extends_of_cells hc) fun r c hge hr => ?_
  have hlt := lt_size_of_read hr
  rw [size, hc] at hlt
  exact absurd hlt (Nat.not_lt.mpr hge)

/-- A new list or dictionary keeps a heap sound. -/
theorem Sound.push_plain (hs : h.Sound) {c : Cell} (hc : h.FineCell c)
    (hn : ∀ data, c ≠ .map data) : (h.push c).Sound := by
  refine hs.extends (extends_push h c) fun r c' hge hr => ?_
  rcases read_push_cases hr with ⟨-, rfl⟩ | hr
  · exact ⟨hc.extends (extends_push h _), hn⟩
  · exact absurd (lt_size_of_read hr) (Nat.not_lt.mpr hge)

/-- Below a new map stands what stands in its entries. -/
theorem within_push_map {d : Ref} {entries : Entries Key Value}
    (hd : h.read d = some (.dict entries))
    (hw : (h.push (.map (.ref d))).Within (.ref h.next) w) :
    w = .ref h.next ∨ ∃ p ∈ entries, (h.push (.map (.ref d))).Within p.2 w := by
  induction hw with
  | self => exact .inl rfl
  | item _ hr hw ih =>
    rcases ih with heq | ⟨p, hp, hbelow⟩
    · cases heq
      rw [read_alloc_new] at hr
      cases hr
    · exact .inr ⟨p, hp, hbelow.item hr hw⟩
  | entry _ hr hd' hp ih =>
    rcases ih with heq | ⟨q, hq, hbelow⟩
    · cases heq
      rw [read_alloc_new] at hr
      cases hr
      rw [(extends_push h _).read_of_some hd] at hd'
      cases hd'
      exact .inr ⟨_, hp, .self⟩
    · exact .inr ⟨q, hq, hbelow.entry hr hd' hp⟩

/-- A new map keeps a heap sound, if its dictionary belongs to no other map, has texts as keys and
holds what can be stored. -/
theorem Sound.push_map (hs : h.Sound) {d : Ref} {entries : Entries Key Value}
    (hd : h.read d = some (.dict entries)) (hfree : ∀ m, h.read m ≠ some (.map (.ref d)))
    (ht : entries.TextKeys) (hst : ∀ p ∈ entries, h.Storable p.2) :
    (h.push (.map (.ref d))).Sound := by
  have he := extends_push h (.map (.ref d))
  -- each part of the invariant is asked of the new map and of the old cells
  refine ⟨fun r c hr => ?_, fun m m' d' hm hm' => ?_, fun m data hm => ?_⟩
  · rcases read_push_cases hr with ⟨-, rfl⟩ | hr
    · exact ⟨d, entries, rfl, he.read_of_some hd, ht⟩
    · exact (hs.cells r c hr).extends he
  · rcases read_push_cases hm with ⟨rfl, heq⟩ | hm <;>
      rcases read_push_cases hm' with ⟨rfl, heq'⟩ | hm'
    · rfl
    · cases heq
      exact absurd hm' (hfree m')
    · cases heq'
      exact absurd hm (hfree m)
    · exact hs.own m m' d' hm hm'
  · rcases read_push_cases hm with ⟨rfl, -⟩ | hm
    · intro r c' hw hr
      rcases within_push_map hd hw with heq | ⟨p, hp, hw⟩
      · cases heq
        rw [read_alloc_new] at hr
        cases hr
        rfl
      · exact hs.storable_extends he ((hs.cells _ _ hd).2 p hp) (hst p hp) r c' hw hr
    · have hfine : h.Fine (.ref m) := ⟨rfl, fun r heq => by cases heq; exact lt_size_of_read hm⟩
      exact hs.storable_extends he hfine (hs.stored m data hm)

/-- A new map over a new dictionary keeps a heap sound. -/
theorem Sound.make (hs : h.Sound) {entries : Entries Key Value} (ha : entries.Apart)
    (ht : entries.TextKeys) (hv : ∀ p ∈ entries, h.Fine p.2 ∧ h.Storable p.2) :
    ((h.push (.dict entries)).push (.map (.ref h.next))).Sound := by
  have he := extends_push h (.dict entries)
  have hs' : (h.push (.dict entries)).Sound :=
    hs.push_plain ⟨ha, fun p hp => (hv p hp).1⟩ fun _ heq => by cases heq
  refine hs'.push_map (read_alloc_new h _) (fun m hm => ?_) ht fun p hp => ?_
  · -- no old map can have the new dictionary
    rcases read_push_cases hm with ⟨-, heq⟩ | hm
    · cases heq
    · obtain ⟨d, es, heq, hd, -⟩ := hs.cells m _ hm
      cases heq
      have hlt := lt_size_of_read hd
      exact absurd hlt (Nat.lt_irrefl _)
  · exact hs.storable_extends he (hv p hp).1 (hv p hp).2

/-! ### Writes -/

section Write

variable {d : Ref} {entries : Entries Key Value}

/-- Writing a dictionary makes no map. -/
theorem read_map_of_write {m : Ref} {data : Value}
    (hm : (h.write d (.dict entries)).read m = some (.map data)) : h.read m = some (.map data) := by
  rcases read_write_cases hm with ⟨-, heq⟩ | ⟨-, hm⟩
  · cases heq
  · exact hm

theorem Fine.write (hv : h.Fine v) (c : Cell) : (h.write d c).Fine v :=
  ⟨hv.1, fun r heq => by rw [size_write]; exact hv.2 r heq⟩

/-- Cells that are not written stay as they have to be. -/
theorem FineCell.write (hlt : d.index < h.size) {c : Cell} (hc : h.FineCell c)
    (hmap : c = .map (.ref d) → entries.TextKeys) :
    (h.write d (.dict entries)).FineCell c := by
  cases c with
  | list items => exact fun v hv => (hc v hv).write _
  | tuple items => exact fun v hv => (hc v hv).write _
  | dict es => exact ⟨hc.1, fun p hp => (hc.2 p hp).write _⟩
  | map data =>
    obtain ⟨d', es, rfl, hd', ht⟩ := hc
    by_cases heq : d = d'
    · subst heq
      exact ⟨d, entries, rfl, read_write_self h d _ hlt, hmap rfl⟩
    · exact ⟨d', es, rfl, (read_write_of_ne h d d' _ heq).trans hd', ht⟩
  | _ => trivial

/-- What is reached after a write can be stored, if what is written can. -/
theorem Storable.write
    (hmap : ∀ m, h.read m = some (.map (.ref d)) → ∀ p ∈ entries, h.Storable p.2)
    (hv : h.Storable v) (hw : (h.write d (.dict entries)).Within v w) : h.Storable w := by
  induction hw with
  | self => exact hv
  | @item r items w _ hr hw ih =>
    rcases read_write_cases hr with ⟨-, heq⟩ | ⟨-, hr⟩
    · cases heq
    · exact ih.of_within (Within.self.item hr hw)
  | @entry r d' es p _ hr hd' hp ih =>
    have hold := read_map_of_write hr
    rcases read_write_cases hd' with ⟨rfl, heq⟩ | ⟨-, hd'⟩
    · cases heq
      exact hmap r hold p hp
    · exact ih.of_within (Within.self.entry hold hd' hp)

/-- Writing a dictionary keeps a heap sound, if what is written in the dictionary of a map can be
stored. -/
theorem Sound.write (hs : h.Sound) {old : Entries Key Value} (hd : h.read d = some (.dict old))
    (hc : h.FineCell (.dict entries))
    (hmap : ∀ m, h.read m = some (.map (.ref d)) →
      entries.TextKeys ∧ ∀ p ∈ entries, h.Storable p.2) :
    (h.write d (.dict entries)).Sound := by
  have hlt := lt_size_of_read hd
  refine ⟨fun r c hr => ?_, fun m m' d' hm hm' =>
    hs.own m m' d' (read_map_of_write hm) (read_map_of_write hm'), fun m data hm => ?_⟩
  · rcases read_write_cases hr with ⟨rfl, rfl⟩ | ⟨-, hr⟩
    · exact ⟨hc.1, fun p hp => (hc.2 p hp).write _⟩
    · exact (hs.cells r c hr).write hlt fun heq => (hmap r (heq ▸ hr)).1
  · intro r c hw hr
    have hstored := hs.stored m data (read_map_of_write hm)
    have hreach := hstored.write (fun m hm => (hmap m hm).2) hw
    rcases read_write_cases hr with ⟨rfl, rfl⟩ | ⟨-, hr⟩
    · -- a dictionary cannot be reached, so it is not the one that is written
      have hdict := hreach r _ .self hd
      cases hdict
    · exact hreach r c .self hr

end Write

/-! ### Places in a sound heap -/

/-- What stands one step down is an item or the value of an entry. -/
theorem mem_of_child? {b : Branch} (hb : h.child? view v b = some w) :
    (∃ items, h.items? view v = some items ∧ w ∈ items) ∨
      ∃ entries, h.entries? view v = some entries ∧ ∃ p ∈ entries, p.2 = w := by
  cases b with
  | item index =>
    obtain ⟨items, hi, hget⟩ := Option.bind_eq_some_iff.mp hb
    exact .inl ⟨items, hi, List.mem_of_getElem? hget⟩
  | entry name =>
    obtain ⟨entries, he, hget⟩ := Option.bind_eq_some_iff.mp hb
    obtain ⟨p, hp, heq⟩ := List.mem_map.mp (Entries.mem_of_get? hget)
    exact .inr ⟨entries, he, p, hp, (Prod.mk.inj heq).2⟩

/-- A place of an attribute map is reached through maps and lists. -/
theorem within_of_at? {way : List Branch} (hw : h.at? .stored v way = some w) : h.Within v w := by
  induction way generalizing v with
  | nil => cases hw; exact .self
  | cons b way ih =>
    obtain ⟨u, hu, hw⟩ := Option.bind_eq_some_iff.mp hw
    refine Within.trans ?_ (ih hw)
    rcases mem_of_child? hu with ⟨items, hi, hmem⟩ | ⟨entries, he, p, hp, rfl⟩
    · obtain ⟨r, rfl, -⟩ := ref_of_items? hi
      unfold items? cell? at hi
      split at hi
      · rename_i hr; cases hi; exact Within.self.item hr hmem
      · cases hi
      · cases hi
    · obtain ⟨r, rfl, ⟨-, hv⟩ | ⟨d, hr, hd, -⟩⟩ := cell_of_entries? he
      · exact absurd rfl hv
      · exact Within.self.entry hr hd hp

/-- What is opened as a list has made items that are there. -/
theorem Sound.fine_items (hs : h.Sound) {items : List Value} (hi : h.items? view v = some items) :
    ∀ w ∈ items, h.Fine w := by
  obtain ⟨r, rfl, -⟩ := ref_of_items? hi
  unfold items? cell? at hi
  split at hi
  · rename_i hr; cases hi; exact hs.cells r _ hr
  · rename_i hr
    split at hi
    · cases hi; exact hs.cells r _ hr
    · cases hi
  · cases hi

/-- What is opened as a map has its keys apart, and made values that are there. -/
theorem Sound.fine_entries (hs : h.Sound) {entries : Entries Key Value}
    (he : h.entries? view v = some entries) : entries.Apart ∧ ∀ p ∈ entries, h.Fine p.2 := by
  obtain ⟨r, rfl, ⟨hr, -⟩ | ⟨d, -, hd, -⟩⟩ := cell_of_entries? he
  · exact hs.cells r _ hr
  · exact hs.cells d _ hd

/-- Every place of a value that is there is there. -/
theorem Sound.fine_at? (hs : h.Sound) (hv : h.Fine v) {way : List Branch}
    (hw : h.at? view v way = some w) : h.Fine w := by
  induction way generalizing v with
  | nil => cases hw; exact hv
  | cons b way ih =>
    obtain ⟨u, hu, hw⟩ := Option.bind_eq_some_iff.mp hw
    refine ih ?_ hw
    rcases mem_of_child? hu with ⟨items, hi, hmem⟩ | ⟨entries, he, p, hp, rfl⟩
    · exact hs.fine_items hi _ hmem
    · exact (hs.fine_entries he).2 p hp

/-- Texts are their own names. -/
theorem match_named {entries : Entries Key Value} (ht : entries.TextKeys) :
    Entries.Match (fun _ (_ _ : Value) => True) (h.named entries) entries := by
  induction entries with
  | nil => exact .nil
  | cons p rest ih =>
    obtain ⟨⟨s, hp⟩, hrest⟩ := List.forall_mem_cons.mp ht
    refine .cons ⟨?_, trivial⟩ (ih hrest)
    show p.1.text? = some (h.keyText p.1)
    rw [hp, keyText_of_text? hp]

/-- Entries with names are matched by what they are with texts as keys. -/
theorem match_textKeys {α : Type} (entries : Entries String α) :
    Entries.Match (fun _ a b => b = a) entries (textKeys entries) := by
  induction entries with
  | nil => exact .nil
  | cons p rest ih => exact .cons ⟨rfl, rfl⟩ ih

/-- Texts that are apart have different names. -/
theorem nodup_named {entries : Entries Key Value} (ht : entries.TextKeys) (ha : entries.Apart) :
    (Entries.keys (h.named entries)).Nodup := (match_named ht).apart_iff.mp ha

/-- A map has texts as keys. -/
theorem Sound.textKeys (hs : h.Sound) {entries : Entries Key Value}
    (he : h.entries? .stored w = some entries) : entries.TextKeys := by
  obtain ⟨r, rfl, ⟨-, hview⟩ | ⟨d, hr, hd, -⟩⟩ := cell_of_entries? he
  · exact absurd rfl hview
  · obtain ⟨d', entries', heq, hd', ht⟩ := hs.cells r _ hr
    cases heq
    rw [hd] at hd'
    cases hd'
    exact ht

/-- What can be stored and is not opened is a leaf. -/
theorem Sound.isLeaf_of_unstored (hs : h.Sound) (hv : h.Fine v) (hst : h.Storable v)
    (hi : h.items? .stored v = none) (he : h.entries? .stored v = none) : h.IsLeaf v := by
  refine ⟨hv.1, fun r heq => ?_⟩
  subst heq
  obtain ⟨c, hc⟩ : ∃ c, h.read r = some c := ⟨_, Array.getElem?_eq_getElem (hv.2 r rfl)⟩
  refine ⟨c, hc, ?_⟩
  have hkept := hst r c .self hc
  cases c with
  | list items => simp [items?, cell?, hc] at hi
  | map data =>
    obtain ⟨d, entries, rfl, hd, -⟩ := hs.cells r _ hc
    simp [entries?, cell?, hc, hd] at he
  | tuple items => cases hkept
  | dict entries => cases hkept
  | _ => rfl

/-- What is within something that can be stored is a map with texts as keys, a list, or a leaf. -/
theorem Sound.cases_within (hs : h.Sound) (hv : h.Fine v) (hst : h.Storable v)
    (hw : h.Within v w) :
    (∃ entries, h.entries? .stored w = some entries ∧ entries.TextKeys) ∨
      (∃ items, h.items? .stored w = some items) ∨ h.IsLeaf w := by
  cases he : h.entries? .stored w with
  | some entries => exact .inl ⟨entries, rfl, hs.textKeys he⟩
  | none =>
    cases hi : h.items? .stored w with
    | some items => exact .inr (.inl ⟨items, rfl⟩)
    | none =>
      exact .inr (.inr (hs.isLeaf_of_unstored (hs.fine_of_within hv hw) (hst.of_within hw) hi he))

/-- The places of what can be stored can be read. -/
theorem Sound.legible_stored (hs : h.Sound) (hv : h.Fine v) (hst : h.Storable v)
    (texts : Ref → Prop) : h.Legible .stored texts v where
  leaf _ _ hw :=
    hs.isLeaf_of_unstored (hs.fine_at? hv hw) (hst.of_within (within_of_at? hw))
  apart _ _ _ _ he := (hs.fine_entries he).1
  nodup _ _ _ _ he := nodup_named (hs.textKeys he) (hs.fine_entries he).1
  keys _ _ _ _ he p hp := by
    obtain ⟨s, hk⟩ := hs.textKeys he p hp
    show p.1.text? = some (h.keyText p.1)
    rw [hk, keyText_of_text? hk]

/-- What is not opened when it is handed in is a leaf. -/
theorem Sound.isLeaf_of_unopened (hs : h.Sound) (hv : h.Fine v) (hi : h.items? .given v = none)
    (he : h.entries? .given v = none) : h.IsLeaf v := by
  refine ⟨hv.1, fun r heq => ?_⟩
  subst heq
  obtain ⟨c, hc⟩ : ∃ c, h.read r = some c := ⟨_, Array.getElem?_eq_getElem (hv.2 r rfl)⟩
  refine ⟨c, hc, ?_⟩
  cases c with
  | list items => simp [items?, cell?, hc] at hi
  | tuple items => simp [items?, cell?, hc] at hi
  | dict entries => simp [entries?, cell?, hc] at he
  | map data =>
    obtain ⟨d, entries, rfl, hd, -⟩ := hs.cells r _ hc
    simp [entries?, cell?, hc, hd] at he
  | _ => rfl

/-- The places of what is handed in can be read if no two keys of one level have one text, and the
texts depend on nothing else. -/
theorem Sound.legible_given (hs : h.Sound) (hv : h.Fine v) {texts : Ref → Prop}
    (hn : ∀ way w entries, h.at? .given v way = some w → h.entries? .given w = some entries →
      (Entries.keys (h.named entries)).Nodup)
    (hk : h.KeysRead .given texts v) : h.Legible .given texts v where
  leaf _ _ hw := hs.isLeaf_of_unopened (hs.fine_at? hv hw)
  apart _ _ _ _ he := (hs.fine_entries he).1
  nodup := hn
  keys := hk

/-- A map is a cell. -/
theorem read_of_isMap {m : Ref} (hm : h.isMap (.ref m) = true) :
    ∃ data, h.read m = some (.map data) := by
  unfold isMap at hm
  split at hm
  · rename_i data hc; exact ⟨data, hc⟩
  · cases hm

theorem isMap_of_read {m : Ref} {data : Value} (hm : h.read m = some (.map data)) :
    h.isMap (.ref m) = true := by simp [isMap, cell?, hm]

/-- A map can be stored. -/
theorem Sound.storable_of_isMap (hs : h.Sound) (hm : h.isMap v = true) : h.Storable v := by
  cases v with
  | ref m =>
    obtain ⟨data, hr⟩ := read_of_isMap hm
    exact hs.stored m data hr
  | _ => cases hm

theorem fine_of_isMap {m : Ref} (hm : h.isMap (.ref m) = true) : h.Fine (.ref m) := by
  obtain ⟨data, hr⟩ := read_of_isMap hm
  exact ⟨rfl, fun r heq => by cases heq; exact lt_size_of_read hr⟩

/-- An attribute map without cycles shows a tree. -/
theorem Sound.exists_reads (hs : h.Sound) {m : Ref} (hm : h.isMap (.ref m) = true)
    (ha : h.Acyclic .stored (.ref m)) : ∃ t, h.Reads .stored (fun _ => True) t (.ref m) := by
  have hlegible := hs.legible_stored (fine_of_isMap hm) (hs.storable_of_isMap hm) fun _ => False
  obtain ⟨t, ht, -⟩ := hlegible.exists_reads ha
  exact ⟨t, ht⟩

end Heap

end PageMeta
