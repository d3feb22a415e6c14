import PageMeta.Proofs.AttributeMap.Sound

/-!
# What operations leave as it is

Operations on attribute maps write the dictionaries of maps and make new cells.  A cell in which no
map keeps its entries stays as it is, whatever is stored: the attributes of an object, the list that
a caller has, a dictionary that was handed in.  And no key is removed from a map: an operation writes
under a key that is there, or adds one at the end.

## Key results

- `KeepsFree`: every cell that belongs to no map stays
- `upkeep_keepsFree`: operations on attribute maps keep these cells, with any values
- `HasKeys`: every map keeps its entries where it did, and has all the keys that it had
- `upkeep_keepsKeys`: operations on attribute maps keep the keys, with any values
-/

namespace PageMeta

namespace Heap

/-! ### Cells that belong to no map -/

/-- A later heap that is sound, with all the maps there were, in which every cell that belongs to no
map is as it was. -/
structure KeepsFree (h h' : Heap) : Prop extends Keeps h h' where
  free : ∀ r, r.index < h.size → h.Free r → h'.read r = h.read r ∧ h'.Free r

variable {h h' h'' : Heap} {v : Value} {m : Ref}

theorem KeepsFree.refl (hs : h.Sound) : KeepsFree h h := ⟨.refl hs, fun _ _ hf => ⟨rfl, hf⟩⟩

theorem KeepsFree.trans (h₁ : KeepsFree h h') (h₂ : KeepsFree h' h'') :
    KeepsFree h h'' where
  toKeeps := h₁.toKeeps.trans h₂.toKeeps
  free r hr hf := by
    obtain ⟨hread, hf'⟩ := h₁.free r hr hf
    obtain ⟨hread', hf''⟩ := h₂.free r (Nat.lt_of_lt_of_le hr h₁.size_le) hf'
    exact ⟨hread'.trans hread, hf''⟩

theorem Grows.keepsFree {building : Building} (hg : Grows building h h') : KeepsFree h h' :=
  ⟨hg.keeps, hg.lasts.free⟩

/-- A cell that is no dictionary belongs to no map. -/
theorem Sound.free_of_read (hs : h.Sound) {r : Ref} {c : Cell} (hr : h.read r = some c)
    (hc : ∀ es, c ≠ .dict es) : h.Free r := by
  intro m hm
  obtain ⟨d, es, heq, hd, -⟩ := hs.cells m _ hm
  cases heq
  rw [hr] at hd
  exact hc es (Option.some.inj hd)

/-- Storing an entry writes the dictionary of a map only. -/
theorem putEntry_keepsFree {key : Key} {name : String} (hs : h.Sound)
    (hm : h.isMap (.ref m) = true) (hk : key.text? = some name) (hv : h.Fine v)
    (hst : h.Storable v) {failed : Heap → Prop} :
    Outcome (putEntry m key v) h (fun _ h' => KeepsFree h h') failed := by
  obtain ⟨data, hr⟩ := read_of_isMap hm
  obtain ⟨d, es, rfl, hd, -⟩ := hs.cells m _ hr
  have hkeeps := write_keeps hs hr hd hk hv hst
  -- the dictionary that is written has a map, so it is not free; and no map is made
  refine Outcome.of_ok (putEntry_ok key v hr hd) ⟨hkeeps, fun r _ hf => ⟨?_, fun m' hm' => ?_⟩⟩
  · exact read_write_of_ne _ _ _ _ fun heq => hf m (heq ▸ hr)
  · exact hf m' (read_map_of_write hm')

end Heap

/-! ### Keys -/

/-- A key that is there is there after a write. -/
theorem Entries.has_put {α : Type} {key k : Key} {v : α} {es : Entries Key α}
    (hk : es.has k = true) : (es.put key v).has k = true := by
  rw [has_eq_any] at hk ⊢
  induction es with
  | nil => cases hk
  | cons p rest ih =>
    simp only [List.any_cons, Bool.or_eq_true] at hk
    rw [put]
    split
    · simpa using hk
    · simp only [List.any_cons, Bool.or_eq_true]
      exact hk.imp_right ih

namespace Heap

variable {h h' h'' : Heap} {v : Value} {m : Ref}

/-- Whether every map keeps its entries where it did, and has all the keys that it had. -/
def HasKeys (h h' : Heap) : Prop :=
  ∀ m d es, h.read m = some (.map (.ref d)) → h.read d = some (.dict es) →
    ∃ es', h'.read m = some (.map (.ref d)) ∧ h'.read d = some (.dict es') ∧
      ∀ k, es.has k = true → es'.has k = true

namespace HasKeys

theorem trans (h₁ : HasKeys h h') (h₂ : HasKeys h' h'') : HasKeys h h'' := by
  intro m d es hm hd
  obtain ⟨es', hm', hd', hkeys'⟩ := h₁ m d es hm hd
  obtain ⟨es'', hm'', hd'', hkeys''⟩ := h₂ m d es' hm' hd'
  exact ⟨es'', hm'', hd'', fun k hk => hkeys'' k (hkeys' k hk)⟩

theorem of_extends (he : Extends h h') : HasKeys h h' :=
  fun _ _ es hm hd => ⟨es, he.read_of_some hm, he.read_of_some hd, fun _ => id⟩

/-- Writing to what is neither a map nor the dictionary of one leaves the maps as they are. -/
theorem write {r : Ref} {c : Cell} (hr : ∀ data, h.read r ≠ some (.map data)) (hf : h.Free r) :
    HasKeys h (h.write r c) := by
  intro m d es hm hd
  have hread : (h.write r c).read m = h.read m :=
    read_write_of_ne h r m c fun heq => hr _ (heq ▸ hm)
  have hdata : (h.write r c).read d = h.read d :=
    read_write_of_ne h r d c fun heq => hf m (heq ▸ hm)
  exact ⟨es, hread.trans hm, hdata.trans hd, fun _ => id⟩

/-- A key that a map has is one that it has later. -/
theorem contains (hk : HasKeys h h') (hs : h.Sound) (hm : h.isMap (.ref m) = true) {key : String}
    (hc : AttributeMap.contains h m (.ofText key) = true) :
    AttributeMap.contains h' m (.ofText key) = true := by
  obtain ⟨data, hread⟩ := read_of_isMap hm
  obtain ⟨d, es, rfl, hd, -⟩ := hs.cells m _ hread
  obtain ⟨es', hread', hd', hkeys⟩ := hk m d es hread hd
  rw [AttributeMap.contains, entriesAt_map hread hd] at hc
  rw [AttributeMap.contains, entriesAt_map hread' hd']
  exact hkeys _ hc

end HasKeys

/-- A later heap in which every cell that belongs to no map stays, and all keys of maps. -/
structure KeepsKeys (h h' : Heap) : Prop extends KeepsFree h h' where
  keys : HasKeys h h'

namespace KeepsKeys

theorem trans (h₁ : KeepsKeys h h') (h₂ : KeepsKeys h' h'') : KeepsKeys h h'' :=
  ⟨h₁.toKeepsFree.trans h₂.toKeepsFree, h₁.keys.trans h₂.keys⟩

/-- New cells leave the maps as they are. -/
theorem of_grows {building : Building} (hg : Grows building h h') : KeepsKeys h h' :=
  ⟨hg.keepsFree, .of_extends hg.cells⟩

theorem refl (hs : h.Sound) : KeepsKeys h h := ⟨.refl hs, .of_extends (.refl _ h)⟩

end KeepsKeys

/-- Storing an entry leaves the keys of all maps. -/
theorem putEntry_keepsKeys {key : Key} {name : String} (hs : h.Sound)
    (hm : h.isMap (.ref m) = true) (hk : key.text? = some name) (hv : h.Fine v)
    (hst : h.Storable v) {failed : Heap → Prop} :
    Outcome (putEntry m key v) h (fun _ h' => KeepsKeys h h') failed := by
  obtain ⟨data, hr⟩ := read_of_isMap hm
  obtain ⟨d, es, rfl, hd, -⟩ := hs.cells m _ hr
  have hrun := putEntry_ok key v hr hd
  have houtcome : Outcome (putEntry m key v) h (fun _ h' => KeepsFree h h') fun _ => True :=
    putEntry_keepsFree hs hm hk hv hst
  have hfree : KeepsFree h (h.write d (.dict (es.put key v))) := houtcome.result hrun
  refine Outcome.of_ok hrun ⟨hfree, fun m' d' es' hm' hd' => ?_⟩
  have hne : d ≠ m' := by
    rintro rfl
    rw [hd] at hm'
    cases hm'
  have hmap := (read_write_of_ne h d m' (.dict (es.put key v)) hne).trans hm'
  by_cases heq : d = d'
  · subst heq
    rw [hd] at hd'
    cases hd'
    exact ⟨_, hmap, read_write_self h d _ (lt_size_of_read hd), fun k => Entries.has_put⟩
  · exact ⟨es', hmap, (read_write_of_ne h d d' _ heq).trans hd', fun _ => id⟩

end Heap

/-! ### Operations -/

namespace AttributeMap

open Heap

/-- Operations on values that are there keep the cells that belong to no map. -/
theorem upkeep_keepsFree : Upkeep Heap.Fine KeepsFree :=
  upkeep_of_putEntry .refl .trans KeepsFree.toKeeps Grows.keepsFree fun hs hm hk hv hst =>
    putEntry_keepsFree hs hm hk hv hst

/-- Operations on values that are there keep the keys of all maps. -/
theorem upkeep_keepsKeys : Upkeep Heap.Fine KeepsKeys :=
  upkeep_of_putEntry .refl .trans (fun hk => hk.toKeeps) KeepsKeys.of_grows
    fun hs hm hk hv hst => putEntry_keepsKeys hs hm hk hv hst

end AttributeMap

end PageMeta
