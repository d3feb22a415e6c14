import PageMeta.Proofs.Heap.Building

/-!
# Heaps in which entries were written

Merging writes entries of dictionaries that are there and makes new cells.  `Changes wrote h h'`
says so: from `h` to `h'`, no cell but the dictionaries named by `wrote` is changed, and of those no
entry but the ones named by `wrote`.

## Key results

- `Changes.trans`, `Changes.mono`: changes add up
- `Changes.reads`: a reading that opens no written dictionary stays
- `putEntry_ok`: writing an entry of an attribute map
-/

namespace PageMeta.Heap

/-- A later heap in which only some entries of some dictionaries were written.  A dictionary that was
written under names that it had keeps its keys. -/
structure Changes (wrote : String → Ref → Prop) (h h' : Heap) : Prop where
  size_le : h.size ≤ h'.size
  read_eq : ∀ r, r.index < h.size → (∀ name, ¬ wrote name r) → h'.read r = h.read r
  get?_eq : ∀ d es, h.read d = some (.dict es) → ∃ es', h'.read d = some (.dict es') ∧
    ((∀ name, wrote name d → ∃ p ∈ es, p.1.text? = some name) →
      Entries.keys es' = Entries.keys es) ∧
    ∀ key name, key.text? = some name → ¬ wrote name d →
      Entries.get? key es' = Entries.get? key es
  vacant : ∀ r, h'.Vacant r → h.Vacant r

variable {h h' h'' : Heap} {view : View} {within : Ref → Prop} {wrote more : String → Ref → Prop}

namespace Changes

theorem refl (wrote : String → Ref → Prop) (h : Heap) : Changes wrote h h where
  size_le := Nat.le_refl _
  read_eq _ _ _ := rfl
  get?_eq _ es hd := ⟨es, hd, fun _ => rfl, fun _ _ _ _ => rfl⟩
  vacant _ hv := hv

theorem trans (h₁ : Changes wrote h h') (h₂ : Changes wrote h' h'') : Changes wrote h h'' where
  size_le := Nat.le_trans h₁.size_le h₂.size_le
  read_eq r hr hw :=
    (h₂.read_eq r (Nat.lt_of_lt_of_le hr h₁.size_le) hw).trans (h₁.read_eq r hr hw)
  get?_eq d es hd := by
    obtain ⟨es₁, hd₁, hkeys₁, hget₁⟩ := h₁.get?_eq d es hd
    obtain ⟨es₂, hd₂, hkeys₂, hget₂⟩ := h₂.get?_eq d es₁ hd₁
    refine ⟨es₂, hd₂, fun hw => ?_,
      fun key name hk hw => (hget₂ key name hk hw).trans (hget₁ key name hk hw)⟩
    have hkeys := hkeys₁ hw
    refine (hkeys₂ fun name hn => ?_).trans hkeys
    obtain ⟨p, hp, ht⟩ := hw name hn
    have hmem : p.1 ∈ Entries.keys es₁ := by rw [hkeys]; exact List.mem_map_of_mem hp
    obtain ⟨q, hq, heq⟩ := List.mem_map.mp hmem
    exact ⟨q, hq, by rw [heq]; exact ht⟩
  vacant r hv := h₁.vacant r (h₂.vacant r hv)

theorem mono (hc : Changes wrote h h') (hm : ∀ name d, wrote name d → more name d) :
    Changes more h h' where
  size_le := hc.size_le
  read_eq r hr hw := hc.read_eq r hr fun name hn => hw name (hm name r hn)
  get?_eq d es hd := by
    obtain ⟨es', hd', hkeys, hget⟩ := hc.get?_eq d es hd
    exact ⟨es', hd', fun hw => hkeys fun name hn => hw name (hm name d hn),
      fun key name hk hw => hget key name hk fun hn => hw (hm name d hn)⟩
  vacant := hc.vacant

/-- New cells are no change. -/
theorem of_extends (he : Extends h h') : Changes wrote h h' where
  size_le := he.size_le
  read_eq r hr _ := he.read_eq r hr
  get?_eq _ es hd := ⟨es, he.read_of_some hd, fun _ => rfl, fun _ _ _ _ => rfl⟩
  vacant _ hv := hv.of_extends he

/-- The cells that are not written stay. -/
theorem agree (hc : Changes wrote h h') (hw : ∀ r, within r → r.index < h.size)
    (hn : ∀ r, within r → ∀ name, ¬ wrote name r) : Agree within h h' :=
  ⟨hc.size_le, fun r hr => hc.read_eq r (hw r hr) (hn r hr)⟩

/-- What a value shows stays if no cell that is opened is written. -/
theorem reads {t : Tree String} {v : Value} (hc : Changes wrote h h')
    (hr : h.Reads view within t v) (hn : ∀ r, within r → ∀ name, ¬ wrote name r) :
    h'.Reads view within t v :=
  (hr.allocated.agree (hc.agree (fun _ hw => hw.2) fun r hw => hn r hw.1)).mono fun _ hw => hw.1

end Changes

/-! ## Writing an entry -/

/-- Writing an entry of an attribute map writes it in the dictionary behind the map. -/
theorem putEntry_ok {r d : Ref} {es : Entries Key Value} (key : Key) (v : Value)
    (hr : h.read r = some (.map (.ref d))) (hd : h.read d = some (.dict es)) :
    putEntry r key v h = .ok () (h.write d (.dict (es.put key v))) := by
  rw [putEntry, putEntries, entriesAt_map hr hd, dict?_of_map hr hd]

/-- Writing an entry under a text changes that entry only. -/
theorem changes_write {d : Ref} {es : Entries Key Value} {key : Key} {name : String} (v : Value)
    (hd : h.read d = some (.dict es)) (hk : key.text? = some name) :
    Changes (fun n r => n = name ∧ r = d) h (h.write d (.dict (es.put key v))) where
  size_le := by rw [size_write]
  read_eq r _ hw := read_write_of_ne _ _ _ _ fun he => hw name ⟨rfl, he.symm⟩
  get?_eq r es' hr := by
    by_cases he : d = r
    · subst he
      rw [hd] at hr
      cases hr
      refine ⟨_, read_write_self _ _ _ (lt_size_of_read hd), fun hw => ?_, fun other n ho hw => ?_⟩
      · -- the name has an entry already, which keeps its key
        obtain ⟨p, hp, ht⟩ := hw name ⟨rfl, rfl⟩
        have hbeq : (p.1 == key) = true := by rw [Key.beq_of_text? ht hk, beq_self_eq_true]
        have hhas : Entries.has key es = true := by
          rw [Entries.has_eq_any]
          exact List.any_eq_true.mpr ⟨p, hp, hbeq⟩
        rw [Entries.keys_put, if_pos hhas]
      · exact Entries.get?_put_of_text? _ _ hk ho fun hn => hw ⟨hn.symm, rfl⟩
    · exact ⟨es', (read_write_of_ne _ _ _ _ he).trans hr, fun _ => rfl, fun _ _ _ _ => rfl⟩
  vacant r hv c hc := by
    by_cases he : d = r
    · subst he
      exact absurd (hv _ (read_write_self _ _ _ (lt_size_of_read hd))) (by simp [Cell.isContainer])
    · exact hv c ((read_write_of_ne _ _ _ _ he).trans hc)

end PageMeta.Heap
