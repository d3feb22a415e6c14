/-!
# Entries in insertion order

A finite map as a list of key and value pairs.  Writing a key that is present replaces its value
where it stands and keeps the key that came first; a new key goes to the end.

* `get?_put_self`, `get?_put_of_ne`: what reading gives after a write.
* `keys_put`: a write changes the keys only by a new one at the end.
* `get?_mapValues`: changing values commutes with reading.
-/

namespace PageMeta

/-- Key and value pairs in insertion order. -/
abbrev Entries (κ α : Type) := List (κ × α)

namespace Entries

variable {κ α β : Type} [BEq κ]

/-- The value of the first entry with the key. -/
def get? (key : κ) : Entries κ α → Option α
  | [] => none
  | (k, v) :: rest => if k == key then some v else get? key rest

/-- Whether there is an entry with the key. -/
def has (key : κ) (entries : Entries κ α) : Bool := (get? key entries).isSome

/-- Writes a value under a key. -/
def put (key : κ) (value : α) : Entries κ α → Entries κ α
  | [] => [(key, value)]
  | (k, v) :: rest => if k == key then (k, value) :: rest else (k, v) :: put key value rest

/-- Leaves out the entries with a key. -/
def erase (key : κ) (entries : Entries κ α) : Entries κ α := entries.filter fun p => !(p.1 == key)

/-- Writes pairs one after the other. -/
def putAll (entries : Entries κ α) (pairs : List (κ × α)) : Entries κ α :=
  pairs.foldl (fun es p => put p.1 p.2 es) entries

/-- Entries with the pairs written one after the other. -/
def ofList (pairs : List (κ × α)) : Entries κ α := putAll [] pairs

omit [BEq κ] in
/-- The keys in order. -/
def keys (entries : Entries κ α) : List κ := entries.map Prod.fst

omit [BEq κ] in
/-- The values in order. -/
def values (entries : Entries κ α) : List α := entries.map Prod.snd

omit [BEq κ] in
/-- Applies a function to every value. -/
def mapValues (f : α → β) (entries : Entries κ α) : Entries κ β :=
  entries.map fun p => (p.1, f p.2)

omit [BEq κ] in
/-- Changing values keeps the keys. -/
@[simp] theorem keys_mapValues (f : α → β) (entries : Entries κ α) :
    keys (mapValues f entries) = keys entries := by
  simp [keys, mapValues, Function.comp_def]

/-- A changed value is found where the value was. -/
@[simp] theorem get?_mapValues (f : α → β) (key : κ) (entries : Entries κ α) :
    get? key (mapValues f entries) = (get? key entries).map f := by
  induction entries with
  | nil => rfl
  | cons p rest ih =>
    obtain ⟨k, v⟩ := p
    have hm : mapValues f ((k, v) :: rest) = (k, f v) :: mapValues f rest := rfl
    rw [hm, get?, get?]
    split
    · rfl
    · exact ih

@[simp] theorem get?_nil (key : κ) : get? key ([] : Entries κ α) = none := rfl

/-- A key that was left out is not there. -/
theorem get?_erase_self [PartialEquivBEq κ] (key : κ) (entries : Entries κ α) :
    get? key (erase key entries) = none := by
  induction entries with
  | nil => rfl
  | cons p rest ih =>
    obtain ⟨k, v⟩ := p
    by_cases h : (k == key) = true
    · simpa [erase, h] using ih
    · simpa [erase, get?, h] using ih

/-- A write adds its key at the end if it is new, and leaves the keys alone otherwise. -/
theorem keys_put (key : κ) (value : α) (entries : Entries κ α) :
    keys (put key value entries) =
      if has key entries then keys entries else keys entries ++ [key] := by
  induction entries with
  | nil => simp [put, keys, has]
  | cons p rest ih =>
    obtain ⟨k, v⟩ := p
    by_cases h : (k == key) = true
    · simp [put, keys, has, get?, h]
    · have hk : keys (put key value ((k, v) :: rest)) = k :: keys (put key value rest) := by
        simp [put, keys, h]
      have hh : has key ((k, v) :: rest) = has key rest := by simp [has, get?, h]
      rw [hk, hh, ih]
      split <;> simp [keys]

/-- A written key reads as the value written. -/
@[simp] theorem get?_put_self [ReflBEq κ] (key : κ) (value : α) (entries : Entries κ α) :
    get? key (put key value entries) = some value := by
  induction entries with
  | nil => simp [put, get?]
  | cons p rest ih =>
    obtain ⟨k, v⟩ := p
    by_cases h : (k == key) = true
    · simp [put, get?, h]
    · simp [put, get?, h, ih]

/-- Other keys read as before. -/
theorem get?_put_of_ne [PartialEquivBEq κ] {key other : κ} (value : α) (entries : Entries κ α)
    (h : (key == other) = false) : get? other (put key value entries) = get? other entries := by
  induction entries with
  | nil => simp [put, get?, h]
  | cons p rest ih =>
    obtain ⟨k, v⟩ := p
    by_cases hk : (k == key) = true
    · have hko : (k == other) = false := by
        cases ho : k == other with
        | false => rfl
        | true => exact absurd (PartialEquivBEq.trans (PartialEquivBEq.symm hk) ho) (by simp [h])
      simp [put, get?, hk, hko]
    · by_cases ho : (k == other) = true
      · simp [put, get?, hk, ho]
      · simp [put, get?, hk, ho, ih]

end Entries

end PageMeta
