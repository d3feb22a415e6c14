import PageMeta.Proofs.AttributeMap.Kept
import PageMeta.Proofs.Registry.Stores

/-!
# Containers of the client

A client can write to the lists that it holds, those in an attribute map among them, and to
dictionaries in which no map keeps its entries.  The heap stays sound, provided that what is put
into a list of a map is what a map can hold.  All stores stay where they are, if the dictionary is
none of theirs.

## Key results

- `Heap.Sound.write_list`: writing to a list
- `Heap.Sound.write_dict`: writing to a dictionary of no map
- `Edit.layout`: a store stands where it stood
- `Edit.orderly`: so do all stores
-/

namespace PageMeta.Heap

variable {h h' : Heap} {r s : Ref} {items old : List Value} {es olds : Entries Key Value}
  {v w : Value}

/-! ### Lists -/

/-- Whether a list or map is reached from an attribute map through maps and lists. -/
def InMap (h : Heap) (r : Ref) : Prop :=
  ∃ m data, h.read m = some (.map data) ∧ h.Within (.ref m) (.ref r)

/-- What is reached after a list was written was reached before, or it was put into the list. -/
theorem within_write_list {m : Ref}
    (hitems : h.Within (.ref m) (.ref r) → ∀ v ∈ items, h.Storable v)
    (hw : (h.write r (.list items)).Within (.ref m) w) :
    h.Within (.ref m) w ∨ (h.Within (.ref m) (.ref r) ∧ h.Storable w) := by
  induction hw with
  | self => exact .inl .self
  | @item s items' w _ hs hmem ih =>
    rcases read_write_cases hs with ⟨rfl, heq⟩ | ⟨-, hs⟩
    · cases heq
      have hin : h.Within (.ref m) (.ref s) := ih.elim id (·.1)
      exact .inr ⟨hin, hitems hin w hmem⟩
    · exact ih.imp (fun hin => hin.item hs hmem)
        fun hin => ⟨hin.1, hin.2.of_within (Within.self.item hs hmem)⟩
  | @entry s d es p _ hs hd hmem ih =>
    rcases read_write_cases hs with ⟨rfl, heq⟩ | ⟨-, hs⟩
    · cases heq
    rcases read_write_cases hd with ⟨rfl, heq⟩ | ⟨-, hd⟩
    · cases heq
    exact ih.imp (fun hin => hin.entry hs hd hmem)
      fun hin => ⟨hin.1, hin.2.of_within (Within.self.entry hs hd hmem)⟩

/-- Writing to a list keeps a heap sound, if a list of a map gets what a map can hold. -/
theorem Sound.write_list (hs : h.Sound) (hr : h.read r = some (.list old))
    (hv : ∀ v ∈ items, h.Fine v) (hst : h.InMap r → ∀ v ∈ items, h.Storable v) :
    (h.write r (.list items)).Sound := by
  -- no map is made or lost, and what is in one now was in one before, or is an item that can be
  -- stored
  have hmaps : ∀ {m data}, (h.write r (.list items)).read m = some (.map data) →
      h.read m = some (.map data) := by
    intro m data hm
    rcases read_write_cases hm with ⟨-, heq⟩ | ⟨-, hm⟩
    · cases heq
    · exact hm
  refine ⟨fun s c hc => ?_, fun m m' d hm hm' => hs.own m m' d (hmaps hm) (hmaps hm'), ?_⟩
  · rcases read_write_cases hc with ⟨rfl, rfl⟩ | ⟨-, hc⟩
    · exact fun v hmem => (hv v hmem).write _
    have hcell := hs.cells s c hc
    cases c with
    | list _ | tuple _ => exact fun v hmem => (hcell v hmem).write _
    | dict es => exact ⟨hcell.1, fun p hp => (hcell.2 p hp).write _⟩
    | map data =>
      obtain ⟨d, es, rfl, hd, htexts⟩ := hcell
      refine ⟨d, es, rfl, ?_, htexts⟩
      rw [read_write_of_ne h r d _ fun heq => ?_]
      · exact hd
      · rw [← heq, hr] at hd
        cases hd
    | _ => trivial
  · intro m data hm s c hw hc
    have hm := hmaps hm
    have hreach := within_write_list (fun hin => hst ⟨m, data, hm, hin⟩) hw
    rcases read_write_cases hc with ⟨rfl, rfl⟩ | ⟨-, hc⟩
    · rfl
    · exact hreach.elim (fun hin => hs.stored m data hm s c hin hc) fun hin => hin.2 s c .self hc

/-! ### Dictionaries -/

/-- Writing to a dictionary in which no map keeps its entries keeps a heap sound. -/
theorem Sound.write_dict (hs : h.Sound) (hr : h.read r = some (.dict olds)) (hf : h.Free r)
    (hes : h.FineCell (.dict es)) : (h.write r (.dict es)).Sound :=
  hs.write hr hes fun m hm => absurd hm (hf m)

end PageMeta.Heap

namespace PageMeta.Settings

open Heap

variable {h h' : Heap} {c : Cells} {scalar : String → Value} {r : Ref}

/-- What a client can do to the containers that it holds: to lists, and to dictionaries in which
neither a map nor a store keeps what it has. -/
inductive Edit (h : Heap) : Heap → Prop
  | list {r : Ref} {old items : List Value} : h.read r = some (.list old) →
      (∀ v ∈ items, h.Fine v) → (h.InMap r → ∀ v ∈ items, h.Storable v) →
      Edit h (h.write r (.list items))
  | dict {r : Ref} {old entries : Entries Key Value} : h.read r = some (.dict old) → h.Free r →
      (∀ c scalar, Layout h c scalar → r ≠ c.attributes ∧ r ≠ c.sections) →
      h.FineCell (.dict entries) → Edit h (h.write r (.dict entries))

/-- A list or a dictionary. -/
def IsOpen (c : Cell) : Prop := (∃ items, c = .list items) ∨ ∃ entries, c = .dict entries

namespace Edit

theorem sound (he : Edit h h') (hs : h.Sound) : h'.Sound := by
  cases he with
  | list hr hitems hst => exact hs.write_list hr hitems hst
  | dict hr hf _ hes => exact hs.write_dict hr hf hes

/-- One container is written, which is no part of a store. -/
theorem cell (he : Edit h h') : ∃ r new, h' = h.write r new ∧ r.index < h.size ∧ IsOpen new ∧
    (∀ c, h.read r = some c → IsOpen c) ∧
    ∀ c scalar, Layout h c scalar → r ≠ c.attributes ∧ r ≠ c.sections := by
  cases he with
  | @list r old items hr _ _ =>
    refine ⟨r, _, rfl, lt_size_of_read hr, .inl ⟨_, rfl⟩, fun c hc => ?_, fun c scalar hc => ?_⟩
    · rw [hr] at hc
      exact .inl ⟨_, (Option.some.inj hc).symm⟩
    · constructor
      · rintro rfl
        rw [hc.attributes] at hr
        cases hr
      · rintro rfl
        rw [hc.sections] at hr
        cases hr
  | @dict r old entries hr _ hapart _ =>
    refine ⟨r, _, rfl, lt_size_of_read hr, .inr ⟨_, rfl⟩, fun c hc => ?_, hapart⟩
    rw [hr] at hc
    exact .inr ⟨_, (Option.some.inj hc).symm⟩

/-- Cells that are no containers stay, and there are no new ones. -/
theorem read_iff (he : Edit h h') {c : Cell} (hc : ¬ IsOpen c) :
    h'.read r = some c ↔ h.read r = some c := by
  obtain ⟨s, new, rfl, hlt, hnew, hold, -⟩ := he.cell
  by_cases heq : s = r
  · subst heq
    rw [read_write_self h s new hlt]
    constructor
    · intro hsome
      exact absurd (Option.some.inj hsome ▸ hnew) hc
    · intro hsome
      exact absurd (hold c hsome) hc
  · rw [read_write_of_ne h s r new heq]

theorem not_isOpen_store (attributes : Ref) : ¬ IsOpen (.store attributes) := by
  rintro (⟨_, heq⟩ | ⟨_, heq⟩) <;> cases heq

theorem not_isOpen_map (data : Value) : ¬ IsOpen (.map data) := by
  rintro (⟨_, heq⟩ | ⟨_, heq⟩) <;> cases heq

theorem size_eq (he : Edit h h') : h'.size = h.size := by
  obtain ⟨r, new, rfl, -⟩ := he.cell
  exact size_write h r new

theorem isStore_iff (he : Edit h h') : IsStore h' r ↔ IsStore h r :=
  exists_congr fun attributes => he.read_iff (not_isOpen_store attributes)

theorem layout (he : Edit h h') (hc : Layout h c scalar) : Layout h' c scalar := by
  have hfree : ∀ s, h.Free s → h'.Free s := fun s hf m hm =>
    hf m ((he.read_iff (not_isOpen_map _)).mp hm)
  refine hc.stays (fun m hm => ?_) fun s hs => ⟨?_, hfree s (hc.free s hs)⟩
  · obtain ⟨data, hread⟩ := read_of_isMap hm
    exact isMap_of_read ((he.read_iff (not_isOpen_map data)).mpr hread)
  · rcases hs with rfl | hs
    · rw [hc.store]
      exact (he.read_iff (not_isOpen_store _)).mpr hc.store
    · obtain ⟨r, new, rfl, -, -, -, hapart⟩ := he.cell
      obtain ⟨hattributes, hsections⟩ := hapart c scalar hc
      refine read_write_of_ne h r s new ?_
      rcases hs with rfl | rfl
      · exact hattributes
      · exact hsections

theorem orderly (he : Edit h h') (ho : Orderly h) : Orderly h' where
  sound := he.sound ho.sound
  stands r hr := by
    obtain ⟨c, scalar, rfl, hc⟩ := ho.stands r (he.isStore_iff.mp hr)
    exact ⟨c, scalar, rfl, he.layout hc⟩
  apart r r' attributes hr hr' := ho.apart r r' attributes
    ((he.read_iff (not_isOpen_store _)).mp hr) ((he.read_iff (not_isOpen_store _)).mp hr')

end Edit

end PageMeta.Settings
