import PageMeta.Value.Tree

/-!
# Reading and writing entries

What stands in entries after a write, beside the lemmas of `PageMeta.Value.Entries`.

## Key results

- `get?_of_mem`, `mem_of_get?`: reading a key finds the entry that has it
- `nodup_keys_put`, `nodup_keys_putAll`: writing keeps the keys apart
- `ofList_eq_self`: entries with different keys are their own list of writes
-/

namespace PageMeta

namespace Entries

variable {κ α β : Type} [BEq κ]

/-- The first entry of a key is in the first part that has one. -/
theorem get?_append (key : κ) (first second : Entries κ α) :
    get? key (first ++ second) = (get? key first).or (get? key second) := by
  induction first with
  | nil => simp
  | cons p rest ih =>
    obtain ⟨k, v⟩ := p
    simp only [List.cons_append, get?]
    split
    · rfl
    · exact ih

/-- Reading from entries with one more entry at the end. -/
theorem get?_concat (entries : Entries κ α) (k key : κ) (v : α) :
    get? key (entries ++ [(k, v)]) = (get? key entries).or (if k == key then some v else none) :=
  get?_append key entries [(k, v)]

/-- What is found is the value of an entry. -/
theorem exists_of_get? {key : κ} {v : α} {entries : Entries κ α} (h : get? key entries = some v) :
    ∃ k, (k, v) ∈ entries := by
  induction entries with
  | nil => cases h
  | cons p rest ih =>
    obtain ⟨k, w⟩ := p
    rw [get?] at h
    split at h
    · cases h
      exact ⟨k, List.mem_cons_self⟩
    · obtain ⟨k', hmem⟩ := ih h
      exact ⟨k', List.mem_cons_of_mem _ hmem⟩

omit [BEq κ] in
@[simp] theorem mapValues_id (entries : Entries κ α) : mapValues id entries = entries := by
  simp [mapValues]

/-- Reading finds something exactly under the keys that are there. -/
theorem has_eq_any (key : κ) (entries : Entries κ α) :
    has key entries = entries.any fun p => p.1 == key := by
  induction entries with
  | nil => rfl
  | cons p rest ih =>
    obtain ⟨k, v⟩ := p
    simp only [has, get?, List.any_cons] at ih ⊢
    split
    · rename_i h; simp [h]
    · rename_i h; simpa [h] using ih

/-- After a write there is what was written and what was there. -/
theorem mem_put {key : κ} {v : α} {es : Entries κ α} {p : κ × α} (hp : p ∈ put key v es) :
    (p.2 = v ∧ (p.1 = key ∨ ∃ q ∈ es, q.1 = p.1)) ∨ p ∈ es := by
  induction es with
  | nil =>
    simp only [put, List.mem_singleton] at hp
    subst hp
    exact .inl ⟨rfl, .inl rfl⟩
  | cons q rest ih =>
    obtain ⟨k, w⟩ := q
    rw [put] at hp
    split at hp
    · rcases List.mem_cons.mp hp with rfl | hp
      · exact .inl ⟨rfl, .inr ⟨(k, w), List.mem_cons_self, rfl⟩⟩
      · exact .inr (List.mem_cons_of_mem _ hp)
    · rcases List.mem_cons.mp hp with rfl | hp
      · exact .inr List.mem_cons_self
      · rcases ih hp with ⟨heq, rfl | ⟨q, hq, he⟩⟩ | hp
        · exact .inl ⟨heq, .inl rfl⟩
        · exact .inl ⟨heq, .inr ⟨q, List.mem_cons_of_mem _ hq, he⟩⟩
        · exact .inr (List.mem_cons_of_mem _ hp)

/-- A key that is not there is written at the end. -/
theorem put_of_not_has {key : κ} {entries : Entries κ α} (value : α)
    (h : has key entries = false) : put key value entries = entries ++ [(key, value)] := by
  induction entries with
  | nil => rfl
  | cons p rest ih =>
    obtain ⟨k, v⟩ := p
    simp only [has_eq_any, List.any_cons, Bool.or_eq_false_iff] at h
    have hrest := ih (by rw [has_eq_any]; exact h.2)
    simp [put, h.1, hrest]

section Lawful

variable [LawfulBEq κ]

/-- What is read under a key stands in the entries. -/
theorem mem_of_get? {key : κ} {entries : Entries κ α} {v : α} (h : get? key entries = some v) :
    (key, v) ∈ entries := by
  induction entries with
  | nil => simp at h
  | cons p rest ih =>
    obtain ⟨k, w⟩ := p
    rw [get?] at h
    split at h
    · rename_i hk
      cases h
      rw [eq_of_beq hk]
      exact List.mem_cons_self
    · exact List.mem_cons_of_mem _ (ih h)

/-- Under a key that is no key of the entries nothing is read. -/
theorem get?_eq_none_of_not_mem {key : κ} {entries : Entries κ α} (h : key ∉ keys entries) :
    get? key entries = none := by
  cases hg : get? key entries with
  | none => rfl
  | some v => exact absurd (List.mem_map_of_mem (f := Prod.fst) (mem_of_get? hg)) h

/-- Of entries with different keys, each is found under its key. -/
theorem get?_of_mem {key : κ} {entries : Entries κ α} {v : α} (hn : (keys entries).Nodup)
    (h : (key, v) ∈ entries) : get? key entries = some v := by
  induction entries with
  | nil => simp at h
  | cons p rest ih =>
    obtain ⟨k, w⟩ := p
    simp only [keys, List.map_cons, List.nodup_cons] at hn
    rcases List.mem_cons.mp h with he | hr
    · cases he; simp [get?]
    · have hne : k ≠ key := fun he =>
        hn.1 (he ▸ List.mem_map_of_mem (f := Prod.fst) hr)
      simp only [get?, beq_iff_eq, hne, if_false]
      exact ih hn.2 hr

/-- There is an entry exactly under each of the keys. -/
theorem has_iff_mem {key : κ} {entries : Entries κ α} : has key entries = true ↔ key ∈ keys entries := by
  rw [has_eq_any]
  simp only [keys, List.any_eq_true, beq_iff_eq, List.mem_map]

/-- Writing keeps the keys apart. -/
theorem nodup_keys_put (key : κ) (value : α) {entries : Entries κ α} (h : (keys entries).Nodup) :
    (keys (put key value entries)).Nodup := by
  rw [keys_put]
  split
  · exact h
  · rename_i hk
    have hnot : key ∉ keys entries := fun hm => hk (has_iff_mem.mpr hm)
    rw [List.nodup_append]
    exact ⟨h, by simp, fun a ha b hb => by
      rw [List.mem_singleton.mp hb]; exact fun he => hnot (he ▸ ha)⟩

/-- Entries with different keys are what writing them one after the other gives. -/
theorem putAll_eq_append {entries : Entries κ α} {pairs : List (κ × α)}
    (h : (keys (entries ++ pairs)).Nodup) : putAll entries pairs = entries ++ pairs := by
  induction pairs generalizing entries with
  | nil => simp [putAll]
  | cons p rest ih =>
    obtain ⟨k, v⟩ := p
    have hk : has k entries = false := by
      refine Bool.eq_false_iff.mpr fun hh => ?_
      simp only [keys, List.map_append, List.map_cons, List.nodup_append] at h
      exact h.2.2 k (has_iff_mem.mp hh) k List.mem_cons_self rfl
    have hstep : putAll entries ((k, v) :: rest) = putAll (entries ++ [(k, v)]) rest := by
      rw [← put_of_not_has v hk]; rfl
    rw [hstep, ih (by simpa using h)]
    simp

/-- Entries with different keys are their own list of writes. -/
theorem ofList_eq_self {entries : List (κ × α)} (h : (keys entries).Nodup) :
    ofList entries = entries := by
  have happend : putAll [] entries = [] ++ entries := putAll_eq_append h
  exact happend

/-- Writing pairs gives entries with different keys. -/
theorem nodup_keys_putAll (pairs : List (κ × α)) {entries : Entries κ α}
    (h : (keys entries).Nodup) : (keys (putAll entries pairs)).Nodup := by
  induction pairs generalizing entries with
  | nil => exact h
  | cons p rest ih => exact ih (nodup_keys_put p.1 p.2 h)

end Lawful

end Entries

end PageMeta
