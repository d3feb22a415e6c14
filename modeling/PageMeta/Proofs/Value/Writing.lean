import PageMeta.Heap.Iteration
import PageMeta.Proofs.Value.Key

/-!
# Entries that were written one after the other

What is read of entries that were written one after the other is what was written last.

## Key results

- `get?_ofList`: a name has the value that was written last
- `get?_reverse_eq_none`: a name has no last value exactly if it was not written
- `mem_keys_putAll`, `mem_values_putAll`: no name is removed, and no value comes from elsewhere
- `mapValues_ofList`: writing commutes with changing values
- `Heap.entriesWrites`: what is written while the entries of a mapping are gone through
-/

namespace PageMeta

namespace Entries

variable {α β γ : Type} {name : String}

theorem ofList_append (us ws : List (String × α)) : ofList (us ++ ws) = putAll (ofList us) ws := by
  simp [ofList, putAll]

/-- What is read after pairs were written is what was written last, or what was there. -/
theorem get?_putAll (name : String) (ws : List (String × α)) (es : Entries String α) :
    get? name (putAll es ws) = (get? name ws.reverse).or (get? name es) := by
  induction ws generalizing es with
  | nil => rfl
  | cons p rest ih =>
    obtain ⟨n, a⟩ := p
    rw [show putAll es ((n, a) :: rest) = putAll (put n a es) rest from rfl, ih, List.reverse_cons,
      get?_append, Option.or_assoc]
    congr 1
    by_cases hn : n = name
    · subst hn
      simp [get?]
    · simp [get?, hn, get?_put_of_ne]

/-- A name has the value that was written last. -/
theorem get?_ofList (name : String) (ws : List (String × α)) :
    get? name (ofList ws) = get? name ws.reverse := by
  rw [ofList, get?_putAll, get?_nil, Option.or_none]

/-- There is a last value exactly for the names that were written. -/
theorem get?_reverse_eq_none {ws : List (String × α)} :
    get? name ws.reverse = none ↔ name ∉ keys ws := by
  constructor
  · intro hnone hmem
    have hmem' : name ∈ keys ws.reverse := by simpa [keys] using hmem
    rw [← has_iff_mem, has, hnone] at hmem'
    cases hmem'
  · intro hn
    exact get?_eq_none_of_not_mem (by simpa [keys] using hn)

/-- A name that is there stays there. -/
theorem mem_keys_putAll {es : Entries String α} (hn : name ∈ keys es) (ws : List (String × α)) :
    name ∈ keys (putAll es ws) := by
  rw [← has_iff_mem, has] at hn ⊢
  rw [get?_putAll]
  cases get? name ws.reverse with
  | none => exact hn
  | some a => rfl

/-- A value that is there was there or was written. -/
theorem mem_values_putAll {a : α} {es : Entries String α} {ws : List (String × α)}
    (ha : a ∈ values (putAll es ws)) : a ∈ values es ∨ a ∈ ws.map (·.2) := by
  induction ws generalizing es with
  | nil => exact .inl ha
  | cons p rest ih =>
    rcases ih ha with hput | hrest
    · obtain ⟨q, hq, rfl⟩ := List.mem_map.mp hput
      rcases mem_put hq with ⟨heq, -⟩ | hq
      · exact .inr (heq ▸ List.mem_cons_self)
      · exact .inl (List.mem_map_of_mem hq)
    · exact .inr (List.mem_cons_of_mem _ hrest)

/-- Writing a value and changing all values is changing them and writing the changed one. -/
theorem mapValues_put (f : α → β) (name : String) (a : α) (es : Entries String α) :
    mapValues f (put name a es) = put name (f a) (mapValues f es) := by
  induction es with
  | nil => rfl
  | cons p rest ih =>
    obtain ⟨n, b⟩ := p
    simp only [mapValues, put, List.map_cons] at ih ⊢
    split
    · rfl
    · rw [List.map_cons, ih]

theorem mapValues_ofList (f : α → β) (pairs : List (String × α)) :
    mapValues f (ofList pairs) = ofList (mapValues f pairs) := by
  suffices hall : ∀ es, mapValues f (putAll es pairs) = putAll (mapValues f es) (mapValues f pairs) from
    hall []
  induction pairs with
  | nil => exact fun _ => rfl
  | cons p rest ih => exact fun es => (ih _).trans (by rw [mapValues_put]; rfl)

/-- What matches changed values matches the values. -/
theorem match_mapValues {Q : String → β → γ → Prop} (f : α → β) {named : Entries String α}
    {entries : Entries Key γ} :
    Match Q (mapValues f named) entries ↔ Match (fun name a c => Q name (f a) c) named entries :=
  List.forall₂_map_left_iff

end Entries

/-- The writes of going through the entries of a mapping, given those of what is done for one. -/
def Heap.entriesWrites {α : Type} (visit : Key → Value → Heap.Action Unit)
    (writes : Heap → Key → Value → List α) (source : Ref) (size : Nat) : List Key → Heap → List α
  | [], _ => []
  | key :: rest, h =>
    let v := ((h.entriesAt source).get? key).getD .none
    writes h key v ++
      match visit key v h with
      | .ok _ h' =>
        if (h'.entriesAt source).length = size then
          entriesWrites visit writes source size rest h'
        else []
      | .error _ _ => []

end PageMeta
