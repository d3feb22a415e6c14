import PageMeta.Proofs.Heap.Reworking

/-!
# Simple data

Data are simple if they are lists, dictionaries with scalars as keys, and scalars in them, at every
depth: no tuple and no attribute map is among them.  What is written into simple data, and what is made
of simple data, is simple again.  A detached copy keeps simple data simple, but only writing an attribute
map out makes simple data of a map.

## Key results

- `simple_iff`: values are simple one by one
- `simple_push`, `simpleKept_write`: new cells, and cells that are written
- `unwrap_simple`: what is written out of an attribute map of data is simple
- `Simple.copy`: a detached copy of simple data is simple
-/

namespace PageMeta

/-- Whether a key is a scalar. -/
def Key.isScalar : Key → Bool
  | .atom v => v.isScalar
  | .tuple _ _ => false

/-- Whether a cell is a list or a dictionary with scalars as keys, with only scalars and cells in it. -/
def Cell.isSimple : Cell → Bool
  | .list items => items.all Value.isDatum
  | .dict entries => entries.all fun p => p.1.isScalar && p.2.isDatum
  | _ => false

theorem Cell.isSimple_list {items : List Value} :
    (Cell.list items).isSimple = true ↔ ∀ v ∈ items, v.isDatum = true := by
  simp [Cell.isSimple]

theorem Cell.isSimple_dict {entries : Entries Key Value} : (Cell.dict entries).isSimple = true ↔
    ∀ p ∈ entries, p.1.isScalar = true ∧ p.2.isDatum = true := by
  simp [Cell.isSimple]

/-- What is a list or a dictionary. -/
theorem Cell.isSimple_cases {c : Cell} (hc : c.isSimple = true) :
    (∃ items, c = .list items) ∨ ∃ entries, c = .dict entries := by
  cases c <;> first | exact .inl ⟨_, rfl⟩ | exact .inr ⟨_, rfl⟩ | cases hc

/-- A scalar key holds no address. -/
theorem Key.addresses_of_isScalar {key : Key} (hk : key.isScalar = true) : key.addresses = [] := by
  cases key with
  | atom v => exact Value.addresses_of_isScalar hk
  | tuple r items => cases hk

theorem Key.stands_of_isScalar {h : Heap} {key : Key} (hk : key.isScalar = true) : key.Stands h := by
  cases key with
  | atom v => exact (Bool.and_eq_true_iff.mp hk).1
  | tuple r items => cases hk

/-- A text that is a key is a scalar if it is made. -/
theorem Key.isScalar_of_text? {key : Key} {name : String} (hk : key.text? = some name)
    (hmade : key.value.isMade = true) : key.isScalar = true := by
  cases key with
  | tuple r items => cases hk
  | atom v => cases v <;> first | exact hmade | cases hk

namespace Heap

/-- Whether values are scalars, or lead to nothing but lists, dictionaries and scalars. -/
structure Simple (h : Heap) (vs : List Value) : Prop where
  values : ∀ v ∈ vs, v.isDatum = true
  cells : ∀ r, h.Leads vs r → ∃ c, h.read r = some c ∧ c.isSimple = true

/-- Whether what stands at an address is simple. -/
def SimpleAt (h : Heap) (r : Ref) : Prop := h.Simple [.ref r]

/-- Whether all that was simple still is. -/
def SimpleKept (h h' : Heap) : Prop := ∀ r, h.SimpleAt r → h'.SimpleAt r

/-- Whether the keys of entries are scalars, and the values are simple. -/
def SimpleEntries (h : Heap) (es : Entries Key Value) : Prop :=
  ∀ p ∈ es, p.1.isScalar = true ∧ h.Simple [p.2]

variable {h h' : Heap} {vs : List Value} {v w : Value} {r : Ref} {c : Cell} {key : Key}
  {es : Entries Key Value}

/-- A simple cell is data in any heap. -/
theorem isDatum_of_isSimple (hc : c.isSimple = true) : h.IsDatum c := by
  cases c with
  | list items => exact Cell.isSimple_list.mp hc
  | dict entries =>
    intro p hp
    obtain ⟨hkey, hvalue⟩ := Cell.isSimple_dict.mp hc p hp
    exact ⟨Key.stands_of_isScalar hkey, hvalue⟩
  | _ => cases hc

/-- Simple data are data. -/
theorem Simple.pure (hs : h.Simple vs) : h.Pure vs :=
  ⟨hs.values, fun r hr => (hs.cells r hr).imp fun _ hc => ⟨hc.1, isDatum_of_isSimple hc.2⟩⟩

theorem Simple.agree (hs : h.Simple vs) (ha : Agree (h.Leads vs) h h') : h'.Simple vs :=
  ⟨hs.values, fun r hr => by
    have hr := hr.of_agree ha
    obtain ⟨c, hc, hsimple⟩ := hs.cells r hr
    exact ⟨c, (ha.read_eq r hr).trans hc, hsimple⟩⟩

theorem Simple.extends (hs : h.Simple vs) (he : Extends h h') : h'.Simple vs :=
  hs.agree (hs.pure.there.agree_of_extends he)

theorem Simple.of_leads (hs : h.Simple vs) (hr : h.Leads vs r) : h.SimpleAt r where
  values v hv := by
    rw [List.mem_singleton.mp hv]
    rfl
  cells s hl := hs.cells s (hr.trans hl)

/-- Values are simple if the addresses that they hold are among some that hold nothing but simple cells
with addresses among them. -/
theorem simple_of_closed {P : Ref → Prop} (hv : ∀ v ∈ vs, v.isDatum = true ∧ Held P v)
    (hP : ∀ r, P r → ∃ c, h.read r = some c ∧ c.isSimple = true ∧ HeldCell P c) : h.Simple vs where
  values v hmem := (hv v hmem).1
  cells r hr := by
    have hin : P r := by
      refine leads_within (fun v hmem => (hv v hmem).2) (fun s c hs hc => ?_) hr
      obtain ⟨c', hc', -, hheld⟩ := hP s hs
      rw [hc] at hc'
      cases hc'
      exact hheld
    obtain ⟨c, hc, hsimple, -⟩ := hP r hin
    exact ⟨c, hc, hsimple⟩

/-- A cell among simple data is simple, and so is what it holds. -/
theorem SimpleAt.cell (hr : h.SimpleAt r) :
    ∃ c, h.read r = some c ∧ c.isSimple = true ∧ HeldCell h.SimpleAt c := by
  obtain ⟨c, hc, hsimple⟩ := hr.cells r (leads_self r)
  exact ⟨c, hc, hsimple, fun s hs => hr.of_leads ((leads_self r).step hc hs)⟩

/-- Values are simple if they are scalars, or stand where simple data stand. -/
theorem simple_iff_held : h.Simple vs ↔ ∀ v ∈ vs, v.isDatum = true ∧ Held h.SimpleAt v :=
  ⟨fun hs v hv => ⟨hs.values v hv, fun _ hr => hs.of_leads (.held hv hr)⟩,
    fun hv => simple_of_closed hv fun _ => SimpleAt.cell⟩

theorem simple_singleton : h.Simple [v] ↔ v.isDatum = true ∧ Held h.SimpleAt v := by
  rw [simple_iff_held, List.forall_mem_singleton]

/-- Values are simple one by one. -/
theorem simple_iff : h.Simple vs ↔ ∀ v ∈ vs, h.Simple [v] := by
  simp only [simple_singleton]
  exact simple_iff_held

theorem simple_of_isScalar (h : Heap) (hv : v.isScalar = true) : h.Simple [v] :=
  simple_singleton.mpr ⟨Value.isDatum_of_isScalar hv, held_of_isScalar hv⟩

theorem Simple.later (hs : h.Simple vs) (hk : SimpleKept h h') : h'.Simple vs :=
  simple_iff_held.mpr fun v hv => ((simple_iff_held.mp hs) v hv).imp_right fun hheld => hheld.mono hk

/-- A simple value is a scalar, a list or a dictionary. -/
theorem Simple.cases (hs : h.Simple [v]) : v.isScalar = true ∨
    (∃ r items, v = .ref r ∧ h.read r = some (.list items) ∧ h.Simple items) ∨
    ∃ r es, v = .ref r ∧ h.read r = some (.dict es) ∧ h.SimpleEntries es := by
  obtain ⟨hdatum, hheld⟩ := simple_singleton.mp hs
  rcases Value.isDatum_cases hdatum with hscalar | ⟨r, rfl⟩
  · exact .inl hscalar
  · obtain ⟨c, hc, hsimple, hcell⟩ := hheld.ref.cell
    rcases Cell.isSimple_cases hsimple with ⟨items, rfl⟩ | ⟨es, rfl⟩
    · have hitems := Cell.isSimple_list.mp hsimple
      refine .inr (.inl ⟨r, items, rfl, hc, simple_iff_held.mpr fun u hu => ?_⟩)
      exact ⟨hitems u hu, heldCell_list.mp hcell u hu⟩
    · refine .inr (.inr ⟨r, es, rfl, hc, fun p hp => ?_⟩)
      obtain ⟨hkey, hvalue⟩ := Cell.isSimple_dict.mp hsimple p hp
      exact ⟨hkey, simple_singleton.mpr ⟨hvalue, (heldCell_dict.mp hcell p hp).2⟩⟩

/-- The entries of a simple dictionary. -/
theorem SimpleAt.entries (hr : h.SimpleAt r) (hread : h.read r = some (.dict es)) :
    h.SimpleEntries es := by
  rcases Simple.cases hr with hscalar | ⟨s, items, heq, hs, -⟩ | ⟨s, es', heq, hs, hes⟩
  · cases hscalar
  · cases heq
    rw [hread] at hs
    cases hs
  · cases heq
    rw [hread] at hs
    cases hs
    exact hes

/-- A mapping among simple data is a dictionary. -/
theorem Simple.dict_of_mapping? (hs : h.Simple [v]) (hm : h.mapping? v = some r) :
    v = .ref r ∧ ∃ es, h.read r = some (.dict es) ∧ h.SimpleEntries es := by
  rcases hs.cases with hscalar | ⟨s, items, rfl, hread, -⟩ | ⟨s, es, rfl, hread, hes⟩
  · cases v <;> first | cases hm | cases hscalar
  · simp [mapping?, dict?, depth, dictTo, hread] at hm
  · have heq : s = r := by simpa [mapping?, dict?_of_dict hread] using hm
    exact ⟨congrArg Value.ref heq, es, heq ▸ hread, hes⟩

/-! ### Entries -/

namespace SimpleEntries

theorem put (hes : h.SimpleEntries es) (hk : key.isScalar = true) (hv : h.Simple [v]) :
    h.SimpleEntries (es.put key v) := by
  intro p hp
  rcases Entries.mem_put hp with ⟨heq, rfl | ⟨q, hq, hkey⟩⟩ | hp
  · exact ⟨hk, heq ▸ hv⟩
  · exact ⟨hkey ▸ (hes q hq).1, heq ▸ hv⟩
  · exact hes p hp

theorem putAll {us : Entries Key Value} (hes : h.SimpleEntries es) (hus : h.SimpleEntries us) :
    h.SimpleEntries (es.putAll us) := by
  induction us generalizing es with
  | nil => exact hes
  | cons p rest ih =>
    obtain ⟨hp, hrest⟩ := List.forall_mem_cons.mp hus
    exact ih (hes.put hp.1 hp.2) hrest

theorem nil (h : Heap) : h.SimpleEntries [] := fun _ hp => absurd hp List.not_mem_nil

theorem get?_getD (hes : h.SimpleEntries es) (key : Key) :
    h.Simple [(es.get? key).getD .none] := by
  cases hget : es.get? key with
  | none => exact simple_of_isScalar h rfl
  | some v =>
    obtain ⟨k, hmem⟩ := Entries.exists_of_get? hget
    exact (hes _ hmem).2

/-- A dictionary of such entries is simple. -/
theorem cell (hes : h.SimpleEntries es) :
    (Cell.dict es).isSimple = true ∧ HeldCell h.SimpleAt (.dict es) := by
  refine ⟨Cell.isSimple_dict.mpr fun p hp => ⟨(hes p hp).1, (simple_singleton.mp (hes p hp).2).1⟩,
    heldCell_dict.mpr fun p hp => ⟨fun s hs => ?_, (simple_singleton.mp (hes p hp).2).2⟩⟩
  rw [Key.addresses_of_isScalar (hes p hp).1] at hs
  exact absurd hs List.not_mem_nil

end SimpleEntries

/-- Entries under texts of the library are simple if their values are. -/
theorem simpleEntries_textKeys {es : Entries String Value} (hes : ∀ p ∈ es, h.Simple [p.2]) :
    h.SimpleEntries (textKeys es) := by
  intro p hp
  obtain ⟨q, hq, rfl⟩ := List.mem_map.mp hp
  exact ⟨rfl, hes q hq⟩

/-! ### New cells and cells that are written -/

/-- A new cell that is made of simple data. -/
theorem simple_push (hc : c.isSimple = true) (hheld : HeldCell h.SimpleAt c) :
    (h.push c).Simple [.ref h.next] := by
  have he := extends_push h c
  -- from the new cell one comes to itself or to what was simple before
  refine simple_of_closed (P := fun s => (h.push c).SimpleAt s ∨ s = h.next) (fun v hv => ?_) ?_
  · rw [List.mem_singleton.mp hv]
    exact ⟨rfl, held_ref (.inr rfl)⟩
  · rintro s (hs | rfl)
    · obtain ⟨c', hc', hsimple, hheld'⟩ := hs.cell
      exact ⟨c', hc', hsimple, hheld'.mono fun _ => .inl⟩
    · exact ⟨c, read_alloc_new h c, hc, hheld.mono fun s hs => .inl (hs.extends he)⟩

theorem newList_simple (hvs : h.Simple vs) : (h.push (.list vs)).Simple [.ref h.next] :=
  simple_push (Cell.isSimple_list.mpr hvs.values)
    (heldCell_list.mpr fun v hv => ((simple_iff_held.mp hvs) v hv).2)

theorem newDict_simple (hes : h.SimpleEntries es) : (h.push (.dict es)).Simple [.ref h.next] :=
  simple_push hes.cell.1 hes.cell.2

/-- Writing simple data into a cell keeps simple data, as far as the cell is one of them. -/
theorem simpleKept_write (hc : h.SimpleAt r → c.isSimple = true ∧ HeldCell h.SimpleAt c) :
    SimpleKept h (h.write r c) := fun s hs => by
  -- what was simple before the write leads to nothing else after it
  refine simple_of_closed (P := h.SimpleAt) (fun v hv => ?_) fun t ht => ?_
  · rw [List.mem_singleton.mp hv]
    exact ⟨rfl, held_ref hs⟩
  · by_cases heq : r = t
    · subst heq
      exact ⟨c, read_write_self h r c (ht.pure.there r (leads_self r)), hc ht⟩
    · obtain ⟨c', hc', hsimple, hheld⟩ := ht.cell
      exact ⟨c', (read_write_of_ne h r t c heq).trans hc', hsimple, hheld⟩

/-! ### Copies -/

/-- What is made of simple data without attribute maps is simple. -/
theorem making_simple : Making .plain Extends (fun h v => h.Simple [v]) fun _ => True where
  refl := .refl _ _
  trans := .trans
  stays _ := id
  later he hv := hv.extends he
  cells := extends_of_cells
  settle hv := by
    rw [settle_of_isMade (Value.isMade_of_isDatum (simple_singleton.mp hv).1)]
    exact ⟨.refl _ _, hv⟩
  list _ hvs := ⟨extends_push _ _, newList_simple (simple_iff.mpr hvs)⟩
  make _ hkeys hmade hes := by
    refine ⟨extends_push _ _, newDict_simple fun p hp => ⟨?_, hes p hp⟩⟩
    obtain ⟨_, hk⟩ := hkeys p hp
    exact Key.isScalar_of_text? hk (hmade p hp)

/-- What is written out of an attribute map of data is simple, whatever maps are in the map. -/
theorem unwrap_simple (hs : h.Sound) (hv : h.Pure [v]) (hm : h.isMap v = true) :
    Outcome (unwrap v) h (fun w h' => Extends h h' ∧ h'.Simple [w]) (Extends h) := by
  have hstorable : h.Storable v := by
    cases v with
    | ref m =>
      obtain ⟨data, hread⟩ := read_of_isMap hm
      exact hs.stored m data hread
    | _ => cases hm
  -- what is read out of the map is a tree of scalars, and that is built anew
  refine Outcome.bind (Outcome.ask (fun u hu => ?_) (.refl _ _))
  obtain ⟨t, ht⟩ := treeTo_supplied hs (hv.supplyStored hs) _ ⟨hv.self, hstorable⟩ hu
  refine (making_simple.build_outcome trivial (ht.imp fun hscalar => ?_)).mono (fun _ _ => id)
    fun _ => False.elim
  exact simple_of_isScalar h hscalar

/-- Renaming addresses keeps a cell simple. -/
theorem isSimple_rename (f : Ref → Ref) (hc : c.isSimple = true) : (c.rename f).isSimple = true := by
  rcases Cell.isSimple_cases hc with ⟨items, rfl⟩ | ⟨entries, rfl⟩
  · refine Cell.isSimple_list.mpr fun v hv => ?_
    obtain ⟨u, hu, rfl⟩ := List.mem_map.mp hv
    exact Value.isDatum_rename f (Cell.isSimple_list.mp hc u hu)
  · refine Cell.isSimple_dict.mpr fun p hp => ?_
    obtain ⟨⟨key, u⟩, hq, rfl⟩ := List.mem_map.mp hp
    obtain ⟨hkey, hvalue⟩ := Cell.isSimple_dict.mp hc _ hq
    refine ⟨?_, Value.isDatum_rename f hvalue⟩
    cases key with
    | atom w => rwa [Key.mapValues, Value.rename_of_isScalar f hkey]
    | tuple r items => cases hkey

/-- A detached copy of simple data is simple. -/
theorem Simple.copy (hs : h.Simple [v]) (hc : Copies h v h' w) : h'.Simple [w] := by
  obtain ⟨f, rfl, -, hread⟩ := hc
  have hself := hs.pure.self
  -- the copy leads to nothing but copies of what the value leads to
  refine simple_of_closed (P := fun s => ∃ r, h.Leads [v] r ∧ s = f r) (fun u hu => ?_) ?_
  · rw [List.mem_singleton.mp hu]
    refine ⟨Value.isDatum_rename f hself.1, fun s hs' => ?_⟩
    obtain ⟨r, hr, heq⟩ := Value.mem_addresses_move f hself.1 s hs'
    exact ⟨r, hself.2 r hr, heq⟩
  · rintro s ⟨r, hr, rfl⟩
    obtain ⟨c, hcell, hsimple⟩ := hs.cells r hr
    refine ⟨c.rename f, hread r c hr hcell, isSimple_rename f hsimple, fun t ht => ?_⟩
    obtain ⟨u, hu, heq⟩ := (isDatum_of_isSimple (h := h) hsimple).mem_addresses_move t ht
    exact ⟨u, hr.step hcell hu, heq⟩

end Heap

end PageMeta
