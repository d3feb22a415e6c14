import PageMeta.Proofs.Heap.Hands

/-!
# Data

Values are data if they lead to nothing but lists, tuples, dictionaries and attribute maps, and to
scalars in them.  A copy of data holds no cell of what it copies.

## Key results

- `Pure.supply`, `Pure.supplyStored`: a copy of data has only scalars as leaves
- `held_supply`: a copy of what is in hand has only leaves in hand
-/

namespace PageMeta

/-- Whether a value is a number, a text, bytes or a constant. -/
def Value.isAtom : Value → Bool
  | .none | .bool _ | .feature _ | .int .. | .real .. | .text .. | .bytes .. => true
  | _ => false

/-- Whether a value is a scalar: a number, a text, bytes or a constant, and made. -/
def Value.isScalar (v : Value) : Bool := v.isAtom && v.isMade

/-- Whether a value is a scalar or a cell. -/
def Value.isDatum : Value → Bool
  | .ref _ => true
  | v => v.isScalar

mutual

/-- Whether a key holds nothing but scalars and tuples, each of which stands where it says. -/
def Key.Stands (h : Heap) : Key → Prop
  | .atom v => v.isAtom = true
  | .tuple r items => h.read r = some (.tuple (items.map Key.value)) ∧ Key.AllStand h items

/-- Whether all keys stand where they say. -/
def Key.AllStand (h : Heap) : List Key → Prop
  | [] => True
  | key :: rest => key.Stands h ∧ Key.AllStand h rest

end

theorem Value.addresses_of_isScalar {v : Value} (hv : v.isScalar = true) : v.addresses = [] := by
  cases v <;> first | rfl | cases hv

theorem Value.isMade_of_isScalar {v : Value} (hv : v.isScalar = true) : v.isMade = true :=
  (Bool.and_eq_true_iff.mp hv).2

theorem Value.isMade_of_isDatum {v : Value} (hv : v.isDatum = true) : v.isMade = true := by
  cases v <;> first | rfl | exact Value.isMade_of_isScalar hv

theorem Value.isDatum_of_isScalar {v : Value} (hv : v.isScalar = true) : v.isDatum = true := by
  cases v <;> first | exact hv | rfl

/-- What is a scalar or a cell holds no address, or is one. -/
theorem Value.isDatum_cases {v : Value} (hv : v.isDatum = true) :
    v.isScalar = true ∨ ∃ r, v = .ref r := by
  cases v <;> first | exact .inl hv | exact .inr ⟨_, rfl⟩

/-- A text that is a key stands anywhere. -/
theorem Key.stands_of_text? (h : Heap) {key : Key} {name : String} (hk : key.text? = some name) :
    key.Stands h := by
  cases key with
  | atom v => cases v <;> first | exact rfl | cases hk
  | tuple r items => cases hk

mutual

/-- A key stands as long as its tuples stay. -/
theorem Key.Stands.imp {h h' : Heap} : ∀ {key : Key}, key.Stands h →
    (∀ r ∈ key.addresses, ∀ items, h.read r = some (.tuple items) → h'.read r = some (.tuple items)) →
    key.Stands h'
  | .atom _, hk, _ => hk
  | .tuple _ _, hk, ht => ⟨ht _ List.mem_cons_self _ hk.1,
      Key.AllStand.imp hk.2 fun r hr => ht r (List.mem_cons_of_mem _ hr)⟩

/-- `Key.Stands.imp`, key by key. -/
theorem Key.AllStand.imp {h h' : Heap} : ∀ {keys : List Key}, Key.AllStand h keys →
    (∀ r ∈ Key.addressesList keys, ∀ items, h.read r = some (.tuple items) →
      h'.read r = some (.tuple items)) → Key.AllStand h' keys
  | [], _, _ => trivial
  | _ :: _, hk, ht => ⟨hk.1.imp fun r hr => ht r (List.mem_append_left _ hr),
      Key.AllStand.imp hk.2 fun r hr => ht r (List.mem_append_right _ hr)⟩

end

namespace Heap

/-- Whether a cell is a list, a tuple, a dictionary or an attribute map, with only scalars and cells
in it. -/
def IsDatum (h : Heap) : Cell → Prop
  | .list items | .tuple items => ∀ w ∈ items, w.isDatum = true
  | .dict entries => ∀ p ∈ entries, p.1.Stands h ∧ p.2.isDatum = true
  | .map data => data.isDatum = true
  | _ => False

/-- Whether values are data, and so is all that they lead to. -/
structure Pure (h : Heap) (vs : List Value) : Prop where
  values : ∀ v ∈ vs, v.isDatum = true
  cells : ∀ r, h.Leads vs r → ∃ c, h.read r = some c ∧ h.IsDatum c

variable {h h' : Heap} {hands : Ref → Prop} {vs : List Value} {v w : Value} {view : View}
  {xs : List Value} {es : Entries Key Value}

theorem IsDatum.isContainer {c : Cell} (hc : h.IsDatum c) : c.isContainer = true := by
  cases c <;> first | rfl | cases hc

/-- A cell is data as long as the tuples among its keys stay. -/
theorem IsDatum.imp {c : Cell} (hc : h.IsDatum c) (ht : ∀ r ∈ c.addresses, ∀ items,
    h.read r = some (.tuple items) → h'.read r = some (.tuple items)) : h'.IsDatum c := by
  cases c with
  | dict entries => exact fun p hp => ⟨(hc p hp).1.imp fun r hr =>
      ht r (List.mem_flatMap.mpr ⟨p, hp, List.mem_append_left _ hr⟩), (hc p hp).2⟩
  | _ => exact hc

namespace Pure

theorem there (hp : h.Pure vs) : h.There vs := fun r hr => by
  obtain ⟨c, hc, -⟩ := hp.cells r hr
  exact lt_size_of_read hc

theorem agree (hp : h.Pure vs) (ha : Agree (h.Leads vs) h h') : h'.Pure vs :=
  ⟨hp.values, fun r hr => by
    have hr := hr.of_agree ha
    obtain ⟨c, hc, hdatum⟩ := hp.cells r hr
    refine ⟨c, (ha.read_eq r hr).trans hc, hdatum.imp fun s hs items hitems => ?_⟩
    exact (ha.read_eq s (hr.step hc hs)).trans hitems⟩

/-- What data lead to is data. -/
theorem of_leads {r : Ref} (hp : h.Pure vs) (hr : h.Leads vs r) : h.Pure [.ref r] where
  values v hv := by
    rw [List.mem_singleton.mp hv]
    rfl
  cells s hs := hp.cells s (hr.trans hs)

/-- Data are there. -/
theorem fine (hp : h.Pure vs) (hv : v.isDatum = true) (hheld : Held (h.Leads vs) v) : h.Fine v :=
  ⟨Value.isMade_of_isDatum hv, fun r heq => hp.there r (heq ▸ hheld).ref⟩

end Pure

/-! ### What is opened -/

/-- The items of what is in hand are in hand. -/
theorem Closed.items (hcl : h.Closed hands) (hv : Held hands v)
    (hi : h.items? view v = some xs) : ∀ w ∈ xs, Held (h.Live hands) w := by
  obtain ⟨r, rfl, -⟩ := ref_of_items? hi
  have hcell := hcl r
  unfold items? cell? at hi
  split at hi
  · rename_i hread
    cases hi
    exact heldCell_list.mp (hcell _ hv.ref hread)
  · rename_i hread
    split at hi
    · cases hi
      exact heldCell_tuple.mp (hcell _ hv.ref hread)
    · cases hi
  · cases hi

/-- The values of what is in hand are in hand. -/
theorem Closed.entries (hcl : h.Closed hands) (hv : Held hands v)
    (he : h.entries? view v = some es) : ∀ p ∈ es, Held (h.Live hands) p.2 := by
  obtain ⟨r, rfl, ⟨hr, -⟩ | ⟨d, hr, hd, -⟩⟩ := cell_of_entries? he
  · exact fun p hp => (hcl.dict hv.ref hr p hp).2
  · exact fun p hp => (hcl.dict (Held.ref (hcl r _ hv.ref hr)).1 hd p hp).2

theorem Pure.items (hp : h.Pure vs) (hv : Held (h.Leads vs) v)
    (hi : h.items? view v = some xs) : ∀ w ∈ xs, w.isDatum = true := by
  obtain ⟨r, rfl, -⟩ := ref_of_items? hi
  obtain ⟨c, hc, hdatum⟩ := hp.cells r hv.ref
  unfold items? cell? at hi
  simp only [hc] at hi
  cases c with
  | list items' =>
    cases hi
    exact hdatum
  | tuple items' =>
    dsimp only at hi
    split at hi
    · cases hi
      exact hdatum
    · cases hi
  | _ => cases hi

theorem Pure.dict {d : Ref} (hp : h.Pure vs) (hd : h.Leads vs d)
    (hread : h.read d = some (.dict es)) : ∀ p ∈ es, p.2.isDatum = true := by
  intro p hmem
  obtain ⟨c, hc, hdatum⟩ := hp.cells d hd
  rw [hread] at hc
  cases hc
  exact (hdatum p hmem).2

theorem Pure.entries (hp : h.Pure vs) (hv : Held (h.Leads vs) v)
    (he : h.entries? view v = some es) : ∀ p ∈ es, p.2.isDatum = true := by
  obtain ⟨r, rfl, ⟨hr, -⟩ | ⟨d, hr, hd, -⟩⟩ := cell_of_entries? he
  · exact hp.dict hv.ref hr
  · exact hp.dict (Held.ref (hp.there.closed r _ hv.ref hr)).1 hd

/-- Data are no other leaves than scalars. -/
theorem Pure.isScalar_of_isLeaf (hp : h.Pure vs) (hv : v.isDatum = true) (hheld : Held (h.Leads vs) v)
    (hl : h.IsLeaf v) : v.isScalar = true := by
  rcases Value.isDatum_cases hv with hscalar | ⟨r, rfl⟩
  · exact hscalar
  · obtain ⟨c, hc, hdatum⟩ := hp.cells r hheld.ref
    obtain ⟨c', hc', hcontainer⟩ := hl.2 r rfl
    rw [hc] at hc'
    cases hc'
    rw [hdatum.isContainer] at hcontainer
    cases hcontainer

/-- A scalar is held by any hand. -/
theorem held_of_isScalar (hv : v.isScalar = true) : Held hands v :=
  held_of_addresses (Value.addresses_of_isScalar hv)

/-! ### What is copied -/

/-- Copied into a map, data have only scalars as leaves. -/
theorem Pure.supply (hp : h.Pure vs) (hs : h.Sound) :
    Supply (fun w => w.isScalar = true) h .given fun w => w.isDatum = true ∧ Held (h.Leads vs) w where
  items hv hi w hw := ⟨hp.items hv.2 hi w hw, Held.of_live (hp.there.closed.items hv.2 hi w hw)⟩
  entries hv he p hm := ⟨hp.entries hv.2 he p hm, Held.of_live (hp.there.closed.entries hv.2 he p hm)⟩
  leaf hv hi he := by
    have hleaf := hs.isLeaf_of_unopened (hp.fine hv.1 hv.2) hi he
    exact ⟨hleaf, hp.isScalar_of_isLeaf hv.1 hv.2 hleaf⟩

/-- What is one step down in an attribute map can be stored if the map can. -/
theorem Storable.items (hv : h.Storable v) (hi : h.items? .stored v = some xs) :
    ∀ w ∈ xs, h.Storable w := by
  obtain ⟨r, rfl, -⟩ := ref_of_items? hi
  exact fun w hw => hv.of_within (Within.self.item (read_of_items? (by decide) hi) hw)

theorem Storable.entries (hv : h.Storable v) (he : h.entries? .stored v = some es) :
    ∀ p ∈ es, h.Storable p.2 := by
  obtain ⟨r, rfl, ⟨-, hn⟩ | ⟨d, hr, hd, -⟩⟩ := cell_of_entries? he
  · exact absurd rfl hn
  · exact fun p hp => hv.of_within (Within.self.entry hr hd hp)

/-- Copied out of a map, data have only scalars as leaves. -/
theorem Pure.supplyStored (hp : h.Pure vs) (hs : h.Sound) :
    Supply (fun w => w.isScalar = true) h .stored fun w => (w.isDatum = true ∧ Held (h.Leads vs) w) ∧ h.Storable w where
  items hv hi w hw := ⟨⟨hp.items hv.1.2 hi w hw, Held.of_live (hp.there.closed.items hv.1.2 hi w hw)⟩,
    hv.2.items hi w hw⟩
  entries hv he p hm := ⟨⟨hp.entries hv.1.2 he p hm, Held.of_live (hp.there.closed.entries hv.1.2 he p hm)⟩,
    hv.2.entries he p hm⟩
  leaf hv hi he := by
    have hleaf := hs.isLeaf_of_unstored (hp.fine hv.1.1 hv.1.2) hv.2 hi he
    exact ⟨hleaf, hp.isScalar_of_isLeaf hv.1.1 hv.1.2 hleaf⟩

/-- Copied into a map, what is in hand has only leaves in hand. -/
theorem held_supply (hs : h.Sound) (hcl : h.Closed hands) :
    Supply (Held (h.Live hands)) h .given fun w => h.Fine w ∧ Held (h.Live hands) w where
  items hv hi w hw := ⟨hs.fine_items hi w hw, hcl.items hv.2.of_live hi w hw⟩
  entries hv he p hm := ⟨(hs.fine_entries he).2 p hm, hcl.entries hv.2.of_live he p hm⟩
  leaf hv hi he := ⟨hs.isLeaf_of_unopened hv.1 hi he, hv.2⟩

end Heap

end PageMeta
