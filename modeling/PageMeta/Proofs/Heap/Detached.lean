import PageMeta.Proofs.Heap.Data
import PageMeta.Proofs.Heap.Detach
import PageMeta.Proofs.Heap.Equality
import PageMeta.Proofs.Heap.Unlooped

/-!
# Detached copies of data

All that data lead to can be reached and copied.  What is copied stands in new cells, and the rest are
tuples that stay.  Either way the copy has the cells of what it is a copy of, with all addresses moved.
So it is equal, and it shares nothing but tuples with what was there before.

## Key results

- `read_moved`: the copy of each cell
- `exists_of_leads_copy`: what the copy leads to
- `detach_pure`: a copy of data can be made, and has nothing but new cells and tuples
- `same_copy`: a copy of data without cycles is equal to what it is a copy of
-/

namespace PageMeta

/-- An address that a value leads to is one that it holds. -/
theorem Value.mem_addresses_of_target? {r : Ref} : ∀ {v : Value}, v.target? = some r →
    r ∈ v.addresses
  | .ref _, hv => by
    cases hv
    exact List.mem_singleton_self r
  | .method receiver owner name mark, hv => by
    rw [Value.target?] at hv
    split at hv
    · exact Value.mem_addresses_of_target? (v := receiver) hv
    · cases hv
  | .none, hv | .bool _, hv | .int _ _, hv | .real _ _, hv | .text _ _, hv | .bytes _ _, hv
  | .function _ _, hv | .classOf _, hv | .sectionHandle _, hv | .feature _, hv | .routine _, hv => by
    cases hv

theorem Value.rename_of_isScalar (f : Ref → Ref) {v : Value} (hv : v.isScalar = true) :
    v.rename f = v := by
  cases v <;> first | rfl | cases hv

theorem Value.rename_of_isAtom (f : Ref → Ref) {v : Value} (hv : v.isAtom = true) :
    v.rename f = v := by
  cases v <;> first | rfl | cases hv

theorem Value.isDatum_rename (f : Ref → Ref) {v : Value} (hv : v.isDatum = true) :
    (v.rename f).isDatum = true := by
  rcases Value.isDatum_cases hv with hscalar | ⟨r, rfl⟩
  · rwa [Value.rename_of_isScalar f hscalar]
  · rfl

theorem Value.addresses_rename (f : Ref → Ref) {v : Value} (hv : v.isDatum = true) :
    (v.rename f).addresses = v.addresses.map f := by
  rcases Value.isDatum_cases hv with hscalar | ⟨r, rfl⟩
  · rw [Value.rename_of_isScalar f hscalar, Value.addresses_of_isScalar hscalar, List.map_nil]
  · rfl

theorem Value.mem_addresses_move (f : Ref → Ref) {v : Value} (hv : v.isDatum = true) :
    ∀ s ∈ (v.rename f).addresses, ∃ r ∈ v.addresses, s = f r := fun s hs => by
  rw [Value.addresses_rename f hv] at hs
  obtain ⟨r, hr, heq⟩ := List.mem_map.mp hs
  exact ⟨r, hr, heq.symm⟩

theorem Value.addresses_of_isAtom {v : Value} (hv : v.isAtom = true) : v.addresses = [] := by
  cases v <;> first | rfl | cases hv

/-- The value of a key whose addresses are moved. -/
theorem Key.value_mapValues (f : Ref → Ref) (key : Key) :
    (key.mapValues (Value.rename f)).value = key.value.rename f := by
  cases key <;> simp [Key.mapValues, Key.value, Value.rename]

theorem Key.mapList_eq (f : Value → Value) (keys : List Key) :
    Key.mapValues.mapList f keys = keys.map (Key.mapValues f) := by
  induction keys with
  | nil => rfl
  | cons key rest ih => rw [Key.mapValues.mapList, ih, List.map_cons]

/-! ### Keys -/

variable {h h' : Heap} {f : Ref → Ref}

mutual

/-- What a key holds can be reached if its tuple can. -/
theorem Key.Stands.reached {P : Ref → Prop} (hP : ∀ r, P r → ∀ s ∈ h.targets r, P s) :
    ∀ {key : Key}, key.Stands h → (∀ r, key.value = .ref r → P r) → ∀ r ∈ key.addresses, P r
  | .atom v, hk, _, r, hr => by
    rw [Key.addresses, Value.addresses_of_isAtom hk] at hr
    cases hr
  | .tuple s items, hk, hkey, r, hr => by
    have hs := hkey s rfl
    rcases List.mem_cons.mp hr with rfl | hr
    · exact hs
    · refine Key.AllStand.reached hP hk.2 (fun key hmem t ht => hP s hs t ?_) r hr
      exact Heap.mem_targets hk.1 (List.mem_map_of_mem hmem) (by rw [ht]; rfl)

/-- `Key.Stands.reached`, key by key. -/
theorem Key.AllStand.reached {P : Ref → Prop} (hP : ∀ r, P r → ∀ s ∈ h.targets r, P s) :
    ∀ {keys : List Key}, Key.AllStand h keys → (∀ key ∈ keys, ∀ r, key.value = .ref r → P r) →
      ∀ r ∈ Key.addressesList keys, P r
  | [], _, _, r, hr => by cases hr
  | key :: rest, hk, hkeys, r, hr => by
    obtain ⟨hkey, hrest⟩ := List.forall_mem_cons.mp hkeys
    rcases List.mem_append.mp hr with hr | hr
    · exact Key.Stands.reached hP hk.1 hkey r hr
    · exact Key.AllStand.reached hP hk.2 hrest r hr

end

mutual

/-- A key stands where its tuples are moved. -/
theorem Key.Stands.move : ∀ {key : Key}, key.Stands h →
    (∀ r ∈ key.addresses, ∀ items, h.read r = some (.tuple items) →
      h'.read (f r) = some (.tuple (items.map (Value.rename f)))) →
    (key.mapValues (Value.rename f)).Stands h'
  | .atom v, hk, _ => by
    rw [Key.mapValues, Value.rename_of_isAtom f hk]
    exact hk
  | .tuple r items, hk, hr => by
    refine ⟨?_, Key.AllStand.move hk.2 fun s hs => hr s (List.mem_cons_of_mem _ hs)⟩
    have hread := hr r List.mem_cons_self _ hk.1
    rw [List.map_map] at hread
    rw [Key.mapList_eq, List.map_map]
    simp only [Value.rename, Function.comp_def, Key.value_mapValues]
    exact hread

/-- `Key.Stands.move`, key by key. -/
theorem Key.AllStand.move : ∀ {keys : List Key}, Key.AllStand h keys →
    (∀ r ∈ Key.addressesList keys, ∀ items, h.read r = some (.tuple items) →
      h'.read (f r) = some (.tuple (items.map (Value.rename f)))) →
    Key.AllStand h' (Key.mapValues.mapList (Value.rename f) keys)
  | [], _, _ => trivial
  | _ :: _, hk, hr => ⟨Key.Stands.move hk.1 fun s hs => hr s (List.mem_append_left _ hs),
      Key.AllStand.move hk.2 fun s hs => hr s (List.mem_append_right _ hs)⟩

end

mutual

/-- Moving the tuples of a key leaves it the same key. -/
theorem Key.Stands.same_move : ∀ {key : Key}, key.Stands h → ∀ k : Key,
    Key.same k (key.mapValues (Value.rename f)) = Key.same k key
  | .atom v, hk, k => by rw [Key.mapValues, Value.rename_of_isAtom f hk]
  | .tuple r items, hk, k => by
    cases k with
    | atom w => rfl
    | tuple s ks =>
      rw [Key.mapValues, Key.same, Key.same]
      exact Key.AllStand.same_move hk.2 ks

/-- `Key.Stands.same_move`, key by key. -/
theorem Key.AllStand.same_move : ∀ {keys : List Key}, Key.AllStand h keys → ∀ ks : List Key,
    Key.sameList ks (Key.mapValues.mapList (Value.rename f) keys) = Key.sameList ks keys
  | [], _, ks => rfl
  | key :: rest, hk, ks => by
    cases ks with
    | nil => rfl
    | cons k ks =>
      rw [Key.mapValues.mapList, Key.sameList, Key.sameList, Key.Stands.same_move hk.1 k,
        Key.AllStand.same_move hk.2 ks]

end

mutual

/-- The addresses of a key are moved. -/
theorem Key.Stands.mem_addresses_move : ∀ {key : Key}, key.Stands h →
    ∀ s ∈ (key.mapValues (Value.rename f)).addresses, ∃ r ∈ key.addresses, s = f r
  | .atom v, hk, s, hs => by
    rw [Key.mapValues, Value.rename_of_isAtom f hk, Key.addresses, Value.addresses_of_isAtom hk] at hs
    cases hs
  | .tuple r items, hk, s, hs => by
    rcases List.mem_cons.mp hs with rfl | hs
    · exact ⟨r, List.mem_cons_self, rfl⟩
    · obtain ⟨t, ht, heq⟩ := Key.AllStand.mem_addresses_move hk.2 s hs
      exact ⟨t, List.mem_cons_of_mem _ ht, heq⟩

/-- `Key.Stands.mem_addresses_move`, key by key. -/
theorem Key.AllStand.mem_addresses_move : ∀ {keys : List Key}, Key.AllStand h keys →
    ∀ s ∈ Key.addressesList (Key.mapValues.mapList (Value.rename f) keys),
      ∃ r ∈ Key.addressesList keys, s = f r
  | [], _, s, hs => by cases hs
  | key :: rest, hk, s, hs => by
    rcases List.mem_append.mp hs with hs | hs
    · obtain ⟨r, hr, heq⟩ := Key.Stands.mem_addresses_move hk.1 s hs
      exact ⟨r, List.mem_append_left _ hr, heq⟩
    · obtain ⟨r, hr, heq⟩ := Key.AllStand.mem_addresses_move hk.2 s hs
      exact ⟨r, List.mem_append_right _ hr, heq⟩

end

namespace Heap

variable {h h' : Heap} {vs : List Value} {v w : Value} {r s : Ref} {c : Cell}

/-! ### Cells -/

section Moving

variable {f : Ref → Ref}

theorem mem_flatMap_move {α : Type} {items : List α} {g : α → α} {addresses : α → List Ref}
    (hitems : ∀ a ∈ items, ∀ s ∈ addresses (g a), ∃ r ∈ addresses a, s = f r) :
    ∀ s ∈ (items.map g).flatMap addresses, ∃ r ∈ items.flatMap addresses, s = f r := fun s hs => by
  obtain ⟨b, hb, hs⟩ := List.mem_flatMap.mp hs
  obtain ⟨a, ha, rfl⟩ := List.mem_map.mp hb
  obtain ⟨r, hr, heq⟩ := hitems a ha s hs
  exact ⟨r, List.mem_flatMap.mpr ⟨a, ha, hr⟩, heq⟩

/-- The addresses of a cell are moved. -/
theorem IsDatum.mem_addresses_move (hc : h.IsDatum c) :
    ∀ s ∈ (c.rename f).addresses, ∃ r ∈ c.addresses, s = f r := by
  cases c with
  | list items | tuple items => exact mem_flatMap_move fun w hw => Value.mem_addresses_move f (hc w hw)
  | dict entries =>
    refine mem_flatMap_move fun p hp s hs => ?_
    obtain ⟨hkey, hvalue⟩ := hc p hp
    rcases List.mem_append.mp hs with hs | hs
    · obtain ⟨r, hr, heq⟩ := hkey.mem_addresses_move s hs
      exact ⟨r, List.mem_append_left _ hr, heq⟩
    · obtain ⟨r, hr, heq⟩ := Value.mem_addresses_move f hvalue s hs
      exact ⟨r, List.mem_append_right _ hr, heq⟩
  | map data => exact Value.mem_addresses_move f hc
  | _ => cases hc

/-- A cell of data is data where its tuples are moved. -/
theorem IsDatum.move (hc : h.IsDatum c) (ht : ∀ r ∈ c.addresses, ∀ items,
    h.read r = some (.tuple items) → h'.read (f r) = some (.tuple (items.map (Value.rename f)))) :
    h'.IsDatum (c.rename f) := by
  cases c with
  | list items | tuple items =>
    intro w hw
    obtain ⟨u, hu, rfl⟩ := List.mem_map.mp hw
    exact Value.isDatum_rename f (hc u hu)
  | dict entries =>
    intro p hp
    obtain ⟨q, hq, rfl⟩ := List.mem_map.mp hp
    obtain ⟨hkey, hvalue⟩ := hc q hq
    exact ⟨hkey.move fun r hr => ht r
      (List.mem_flatMap.mpr ⟨q, hq, List.mem_append_left _ hr⟩), Value.isDatum_rename f hvalue⟩
  | map data => exact Value.isDatum_rename f hc
  | _ => cases hc

/-- A cell none of whose addresses is moved stays. -/
theorem rename_of_fixed {items : List Value} (hitems : ∀ w ∈ items, w.isDatum = true)
    (hf : ∀ w ∈ items, ∀ r, w = .ref r → f r = r) :
    (Cell.tuple items).rename f = .tuple items := by
  have hfixed : items.map (Value.rename f) = items.map id := List.map_congr_left fun w hw => by
    rcases Value.isDatum_cases (hitems w hw) with hscalar | ⟨r, rfl⟩
    · exact Value.rename_of_isScalar f hscalar
    · rw [Value.rename, hf _ hw r rfl]
      rfl
  rw [Cell.rename, hfixed, List.map_id]

end Moving

/-! ### What can be reached -/

/-- What a cell leads to is among what it holds. -/
theorem mem_addresses_of_mem_targets (hc : h.read r = some c) (hs : s ∈ h.targets r) :
    s ∈ c.addresses := by
  rw [targets, heldBy, hc] at hs
  obtain ⟨w, hw, hs⟩ := List.mem_filterMap.mp hs
  have haddress := Value.mem_addresses_of_target? hs
  -- one case for each kind of cell: what the collector follows is what the cell holds
  cases c with
  | list items | tuple items => exact List.mem_flatMap.mpr ⟨w, hw, haddress⟩
  | dict entries =>
    obtain ⟨p, hp, hw⟩ := List.mem_flatMap.mp hw
    refine List.mem_flatMap.mpr ⟨p, hp, List.mem_append.mpr ?_⟩
    rcases List.mem_pair.mp hw with rfl | rfl
    · refine .inl ?_
      cases hkey : p.1 with
      | atom v => rwa [hkey] at haddress
      | tuple t items =>
        rw [hkey] at haddress
        rw [List.mem_singleton.mp haddress]
        exact List.mem_cons_self
    · exact .inr haddress
  | map data =>
    cases List.mem_singleton.mp hw
    exact haddress
  | builder kind attributes | store attributes =>
    cases List.mem_singleton.mp hw
    exact haddress
  | record schema attributes others given =>
    rcases List.mem_cons.mp hw with rfl | hw
    · rw [List.mem_singleton.mp haddress]
      exact List.mem_cons_self
    · obtain ⟨t, ht, rfl⟩ := List.mem_map.mp hw
      rw [List.mem_singleton.mp haddress]
      exact List.mem_cons_of_mem _ (List.mem_append_left _ ht)
  | field owner name =>
    rcases List.mem_pair.mp hw with rfl | rfl
    · exact List.mem_append_left _ haddress
    · exact List.mem_append_right _ haddress
  | liveKeys of | liveValues of | liveItems of => cases hw

/-- All that data lead to can be reached, and nothing else. -/
theorem mem_reachable_iff (hp : h.Pure [v]) : r ∈ h.reachable v ↔ h.Leads [v] r := by
  constructor
  · refine reachable_of_closed (fun r hr s hs => ?_) (fun r hr => ?_) r
    · obtain ⟨c, hc, -⟩ := hp.cells r hr
      exact hr.step hc (mem_addresses_of_mem_targets hc hs)
    · exact .held List.mem_cons_self (Value.mem_addresses_of_target? hr)
  · -- from a cell that is reached, all that it holds is reached, since only data are in it
    intro hr
    induction hr with
    | held hmem hr =>
      rw [List.mem_singleton.mp hmem] at hr
      rcases Value.isDatum_cases (hp.values v List.mem_cons_self) with hscalar | ⟨s, rfl⟩
      · rw [Value.addresses_of_isScalar hscalar] at hr
        cases hr
      · exact mem_reachable (by rw [List.mem_singleton.mp hr]; rfl)
    | @step r s c hl hc hs ih =>
      obtain ⟨c', hc', hdatum⟩ := hp.cells r hl
      rw [hc] at hc'
      cases hc'
      have hpart : ∀ {w : Value}, w.isDatum = true → w ∈ c.values → s ∈ w.addresses →
          s ∈ h.reachable v := fun {w} hw hmem hs => by
        rcases Value.isDatum_cases hw with hscalar | ⟨t, rfl⟩
        · rw [Value.addresses_of_isScalar hscalar] at hs
          cases hs
        · rw [List.mem_singleton.mp hs]
          exact reachable_closed ih (mem_targets hc hmem rfl)
      cases c with
      | list items | tuple items =>
        obtain ⟨w, hw, hs⟩ := List.mem_flatMap.mp hs
        exact hpart (hdatum w hw) hw hs
      | dict entries =>
        obtain ⟨p, hp, hs⟩ := List.mem_flatMap.mp hs
        rcases List.mem_append.mp hs with hs | hs
        · refine (hdatum p hp).1.reached (fun r hr s => reachable_closed hr) (fun t ht => ?_)
            s hs
          exact reachable_closed ih (mem_targets hc
            (List.mem_flatMap.mpr ⟨p, hp, List.mem_cons_self⟩) (by rw [ht]; rfl))
        · exact hpart (hdatum p hp).2 (List.mem_flatMap.mpr ⟨p, hp, by simp⟩) hs
      | map data => exact hpart hdatum (List.mem_singleton_self data) hs
      | _ => cases hdatum

/-! ### The copy -/

/-- Where the copy of what a value leads to stands. -/
def moved (h : Heap) (v : Value) (r : Ref) : Ref := h.relocate (h.copiedFor v) r

/-- The heap with copies of all that a value leads to. -/
def copyOf (h : Heap) (v : Value) : Heap := h.withCopies (h.copiedFor v)

theorem staysTo_succ : ∀ {n : Nat} {v : Value}, h.staysTo n v = true → h.staysTo (n + 1) v = true
  | 0, _, hv => by cases hv
  | n + 1, .ref r, hv => by
    rw [staysTo] at hv ⊢
    cases hread : h.read r with
    | none => rfl
    | some c =>
      simp only [hread] at hv ⊢
      cases c with
      | tuple items =>
        exact List.all_eq_true.mpr fun w hw => staysTo_succ (List.all_eq_true.mp hv w hw)
      | _ => cases hv
  | n + 1, .method _ _ _ _, hv => hv
  | n + 1, .none, _ | n + 1, .bool _, _ | n + 1, .int _ _, _ | n + 1, .real _ _, _
  | n + 1, .text _ _, _ | n + 1, .bytes _ _, _ | n + 1, .function _ _, _ | n + 1, .classOf _, _
  | n + 1, .sectionHandle _, _ | n + 1, .feature _, _ | n + 1, .routine _, _ => rfl

/-- A cell that needs no copy is a tuple of values that need none. -/
theorem exists_tuple_of_stays (hs : h.stays (.ref r) = true) (hc : h.read r = some c) :
    ∃ items, c = .tuple items ∧ ∀ w ∈ items, h.stays w = true := by
  rw [stays, depth, staysTo] at hs
  simp only [hc] at hs
  cases c with
  | tuple items => exact ⟨items, rfl, fun w hw => staysTo_succ (List.all_eq_true.mp hs w hw)⟩
  | _ => cases hs

/-- What needs no copy is not moved. -/
theorem moved_of_stays (hs : h.stays (.ref r) = true) : h.moved v r = r := by
  obtain ⟨-, heq⟩ | ⟨hr, -⟩ := relocate_cases h (h.copiedFor v) r
  · exact heq
  · have hno := (List.mem_filter.mp hr).2
    rw [hs] at hno
    cases hno

/-- What data lead to needs no copy, or is copied. -/
theorem stays_or_copied (hp : h.Pure [v]) (hr : h.Leads [v] r) :
    h.stays (.ref r) = true ∨ r ∈ h.copiedFor v := by
  by_cases hs : h.stays (.ref r) = true
  · exact .inl hs
  · exact .inr (List.mem_filter.mpr ⟨(mem_reachable_iff hp).mpr hr, by simpa using hs⟩)

/-- The copy has every cell, with all addresses moved. -/
theorem read_moved (hp : h.Pure [v]) (hr : h.Leads [v] r) (hc : h.read r = some c) :
    (h.copyOf v).read (h.moved v r) = some (c.rename (h.moved v)) := by
  rcases stays_or_copied hp hr with hs | hcopied
  · obtain ⟨items, rfl, hitems⟩ := exists_tuple_of_stays hs hc
    obtain ⟨c', hc', hdatum⟩ := hp.cells r hr
    rw [hc] at hc'
    cases hc'
    rw [moved_of_stays hs, rename_of_fixed hdatum fun w hw s heq =>
      moved_of_stays (heq ▸ hitems w hw)]
    exact (withCopies_extends h _).read_of_some hc
  · exact (read_relocate hcopied hc).1

/-- What is moved stands in a new cell, and the rest are tuples. -/
theorem new_or_tuple (hp : h.Pure [v]) (hr : h.Leads [v] r) :
    h.size ≤ (h.moved v r).index ∨ h.moved v r = r ∧ h.IsTuple r := by
  obtain ⟨c, hc, -⟩ := hp.cells r hr
  rcases stays_or_copied hp hr with hs | hcopied
  · obtain ⟨items, rfl, -⟩ := exists_tuple_of_stays hs hc
    exact .inr ⟨moved_of_stays hs, items, hc⟩
  · exact .inl (read_relocate hcopied hc).2

/-- What a part of the copy leads to is the copy of what the part leads to. -/
theorem exists_of_leads_copy (hp : h.Pure [v]) (hw : w.isDatum = true) (hheld : Held (h.Leads [v]) w)
    (hl : (h.copyOf v).Leads [w.rename (h.moved v)] s) :
    ∃ r, h.Leads [w] r ∧ h.Leads [v] r ∧ s = h.moved v r := by
  induction hl with
  | held hmem hs =>
    rw [List.mem_singleton.mp hmem] at hs
    obtain ⟨r, hr, heq⟩ := Value.mem_addresses_move _ hw _ hs
    exact ⟨r, .held List.mem_cons_self hr, hheld r hr, heq⟩
  | step _ hc hs ih =>
    obtain ⟨r, hrw, hr, rfl⟩ := ih
    obtain ⟨c, hread, hdatum⟩ := hp.cells r hr
    rw [read_moved hp hr hread] at hc
    cases hc
    obtain ⟨t, ht, heq⟩ := hdatum.mem_addresses_move _ hs
    exact ⟨t, hrw.step hread ht, hr.step hread ht, heq⟩

/-- What data are is held by what they lead to. -/
theorem Pure.self (hp : h.Pure [v]) : v.isDatum = true ∧ Held (h.Leads [v]) v :=
  ⟨hp.values v List.mem_cons_self, fun _ hr => .held List.mem_cons_self hr⟩

/-- A copy of data can be made.  It is data, and it has nothing but new cells and tuples. -/
theorem detach_pure (hp : h.Pure [v]) :
    detach v h = .ok (v.rename (h.moved v)) (h.copyOf v) ∧
      (h.copyOf v).Pure [v.rename (h.moved v)] ∧
      ∀ s, (h.copyOf v).Leads [v.rename (h.moved v)] s → h.size ≤ s.index ∨ h.IsTuple s := by
  obtain ⟨hdatum, hheld⟩ := hp.self
  refine ⟨?_, ⟨fun w hw => ?_, fun s hs => ?_⟩, fun s hs => ?_⟩
  · have hnone : (h.copiedFor v).findSome? (fun r => (h.read r).bind Cell.uncopyable?) = none :=
      List.findSome?_eq_none_iff.mpr fun r hr => by
        obtain ⟨c, hc, hcell⟩ := hp.cells r ((mem_reachable_iff hp).mp (List.mem_filter.mp hr).1)
        rw [hc]
        cases c <;> first | rfl | cases hcell
    simp only [detach, hnone]
    rfl
  · rw [List.mem_singleton.mp hw]
    exact Value.isDatum_rename _ hdatum
  · obtain ⟨r, -, hr, rfl⟩ := exists_of_leads_copy hp hdatum hheld hs
    obtain ⟨c, hc, hcell⟩ := hp.cells r hr
    exact ⟨_, read_moved hp hr hc, hcell.move fun t ht items hitems =>
      read_moved hp (hr.step hc ht) hitems⟩
  · obtain ⟨r, -, hr, rfl⟩ := exists_of_leads_copy hp hdatum hheld hs
    refine (new_or_tuple hp hr).imp_right fun hstay => ?_
    rw [hstay.1]
    exact hstay.2

/-- Different cells are moved to different places. -/
theorem moved_inj (hp : h.Pure [v]) (hr : h.Leads [v] r) (hs : h.Leads [v] s)
    (heq : h.moved v r = h.moved v s) : r = s := by
  have hrlt := hp.there r hr
  have hslt := hp.there s hs
  obtain ⟨-, hr⟩ | ⟨-, i, hi, hr⟩ := relocate_cases h (h.copiedFor v) r <;>
    obtain ⟨-, hs⟩ | ⟨-, j, hj, hs⟩ := relocate_cases h (h.copiedFor v) s <;>
    rw [moved, moved, hr, hs] at heq
  · exact heq
  · rw [heq] at hrlt
    exact absurd hrlt (Nat.not_lt.mpr (Nat.le_add_right _ _))
  · rw [← heq] at hslt
    exact absurd hslt (Nat.not_lt.mpr (Nat.le_add_right _ _))
  · have hij : i = j := Nat.add_left_cancel (congrArg Ref.index heq)
    rw [hij, hj] at hi
    exact (Option.some.inj hi).symm

/-- A copy of data without cycles is without cycles. -/
theorem unlooped_copy (hp : h.Pure [v]) (hu : h.Unlooped [v]) :
    (h.copyOf v).Unlooped [v.rename (h.moved v)] := by
  intro s hs hback
  obtain ⟨r, -, hr, rfl⟩ := exists_of_leads_copy hp hp.self.1 hp.self.2 hs
  obtain ⟨c, hc, hcell⟩ := hp.cells r hr
  obtain ⟨c', hc', t, ht, hl⟩ := hback
  rw [read_moved hp hr hc] at hc'
  cases hc'
  obtain ⟨u, hmem, rfl⟩ := hcell.mem_addresses_move _ ht
  have hul := hr.step hc hmem
  obtain ⟨q, hq, hqv, heq⟩ := exists_of_leads_copy (w := .ref u) hp rfl (held_ref hul) hl
  exact hu r hr ⟨c, hc, u, hmem, moved_inj hp hr hqv heq ▸ hq⟩

/-! ### Equality -/

theorem agree_map {same : Value → Value → Bool} {g : Value → Value} : ∀ {items : List Value},
    (∀ w ∈ items, same (g w) w = true) → Heap.agree same (items.map g) items = true
  | [], _ => rfl
  | w :: rest, hw => by
    obtain ⟨hhead, hrest⟩ := List.forall_mem_cons.mp hw
    rw [List.map_cons, Heap.agree, hhead, agree_map hrest]
    rfl

theorem get?_congr {k l : Key} (hkl : ∀ key : Key, (key == k) = (key == l)) :
    ∀ es : Entries Key Value, es.get? k = es.get? l
  | [] => rfl
  | p :: es => by rw [Entries.get?, Entries.get?, hkl p.1, get?_congr hkl es]

/-- Entries are equal to those with all addresses moved if the values are. -/
theorem sameEntries_move {same : Value → Value → Bool} {f : Ref → Ref} {es : Entries Key Value}
    (ha : es.Apart) (hkeys : ∀ p ∈ es, p.1.Stands h)
    (hvalues : ∀ p ∈ es, same (p.2.rename f) p.2 = true) :
    sameEntries same (es.map fun p => (p.1.mapValues (Value.rename f), p.2.rename f)) es = true := by
  refine sameEntries_iff.mpr ⟨List.length_map .., fun p hp => ?_⟩
  obtain ⟨q, hq, rfl⟩ := List.mem_map.mp hp
  refine ⟨q.2, ?_, hvalues q hq⟩
  rw [← ha.get?_of_mem hq]
  exact get?_congr (hkeys q hq).same_move es

theorem contentAt_of_map {m d : Ref} {es : Entries Key Value} (hm : h.read m = some (.map (.ref d)))
    (hd : h.read d = some (.dict es)) : h.contentAt m = some (.dict es) := by
  simp only [contentAt, hm, entriesAt, dict?_of_map hm hd]
  rfl

theorem sameTo_inside {n : Nat} {r s : Ref} :
    h.sameTo n false (.ref r) (.ref s) = h.sameTo n true (.ref r) (.ref s) := by
  cases n <;> rfl

/-- A copy of data without cycles is equal to what it is a copy of. -/
theorem same_copy (hs : h.Sound) (hp : h.Pure [.ref r]) (hu : h.Unlooped [.ref r]) :
    (h.copyOf (.ref r)).same (.ref (h.moved (.ref r) r)) (.ref r) = true := by
  have he : Extends h (h.copyOf (.ref r)) := withCopies_extends h _
  have ha := hp.there.agree_of_extends he
  rw [same, sameTo_inside]
  -- nothing leads back to itself, so it is enough to compare a cell with its copy when what is
  -- below is equal to its own
  refine (hu.agree ha).induct (P := fun n u => u.isDatum = true →
    (h.copyOf (.ref r)).sameTo n true (u.rename (h.moved (.ref r))) u = true) (hp.there.agree ha)
    (fun n u hheld hbelow hdatum => ?_) (held_ref (leads_self r)) rfl
  rcases Value.isDatum_cases hdatum with hscalar | ⟨s, rfl⟩
  · rw [Value.rename_of_isScalar _ hscalar]
    exact sameTo_refl n u
  · have hl := hheld.ref.of_agree ha
    obtain ⟨c, hc, hcell⟩ := hp.cells s hl
    have hmoved := read_moved hp hl hc
    have hread := he.read_of_some hc
    have hpart := hbelow s rfl
    cases c with
    | list items | tuple items =>
      refine sameTo_of_contentAt (contentAt_of_read hmoved fun _ heq => by cases heq)
        (contentAt_of_read hread fun _ heq => by cases heq) (agree_map fun w hw => ?_)
      have hi : (h.copyOf (.ref r)).items? .given (.ref s) = some items := by simp [items?, cell?, hread]
      exact hpart w (held_below_items hi w hw) (hcell w hw)
    | dict es =>
      refine sameTo_of_contentAt (contentAt_of_read hmoved fun _ heq => by cases heq)
        (contentAt_of_read hread fun _ heq => by cases heq)
        (sameEntries_move (hs.cells s _ hc).1 (fun p hp => (hcell p hp).1) fun p hp => ?_)
      have hi : (h.copyOf (.ref r)).entries? .given (.ref s) = some es := by simp [entries?, cell?, hread]
      exact hpart p.2 (held_below_entries hi p hp) (hcell p hp).2
    | map data =>
      obtain ⟨d, es, rfl, hd, -⟩ := hs.cells s _ hc
      have hdl := hl.step hc (List.mem_singleton_self d)
      obtain ⟨c, hd', hes⟩ := hp.cells d hdl
      rw [hd] at hd'
      cases hd'
      refine sameTo_of_contentAt (contentAt_of_map hmoved (read_moved hp hdl hd))
        (contentAt_of_map hread (he.read_of_some hd))
        (sameEntries_move (hs.cells d _ hd).1 (fun p hp => (hes p hp).1) fun p hp => ?_)
      have hi : (h.copyOf (.ref r)).entries? .given (.ref s) = some es := by
        simp [entries?, cell?, hread, he.read_of_some hd]
      exact hpart p.2 (held_below_entries hi p hp) (hes p hp).2
    | _ => cases hcell

end Heap

end PageMeta
