import PageMeta.Proofs.Heap.Detach
import PageMeta.Proofs.Value.Entries
import PageMeta.Schema.Check

/-!
# Values of the types that are declared

A value can have the type that a shape declares, all the way down, and still not be what the shape
asks for: a text can be too short, an integer out of bounds, a field missing.  Both depend on nothing
but the lists and dictionaries below the value, so that a detached copy has the same types and meets
the same demands.

## Key results

- `Typed`: whether a value has the type that a shape declares
- `Meets`: whether it is what the shape asks for beyond that
- `meetsFields_iff`: only fields that ask for more than their type need to be looked at
- `typed_carried`: both are the same of what is carried to another heap
- `carries_detach`: a detached copy is carried to its heap
-/

namespace PageMeta

namespace Schema

open Heap (Extends)

variable {h h' : Heap} {v : Value} {entries : Entries Key Value}

/-! ### Types and constraints -/

/-- Whether all keys are texts. -/
def AllTexts (entries : Entries Key Value) : Prop := ∀ p ∈ entries, ∃ name, p.1.text? = some name

mutual

/-- Whether a value has the type that a shape declares. -/
def Typed (h : Heap) : Shape → Value → Prop
  | .anything, _ => True
  | .text _, v => ∃ s, v.text? = some s
  | .flag, v => ∃ b, v = .bool b
  | .integer _ _, v => ∃ n mark, v = .int n mark
  | .number _ _, v => ∃ x mark, v = .real x mark
  | .texts, v => ∃ items, h.cell? v = some (.list items) ∧ ∀ u ∈ items, ∃ s, u.text? = some s
  | .mapping item, v => ∃ entries, h.cell? v = some (.dict entries) ∧ AllTexts entries ∧
      ∀ p ∈ entries, Typed h item p.2
  | .record schema, v => TypedRecord h schema v
  | .optional shape, v => v = .none ∨ Typed h shape v
  | .textOrMapping, v => (∃ s, v.text? = some s) ∨
      ∃ entries, h.cell? v = some (.dict entries) ∧ AllTexts entries

/-- Whether a value is a dictionary with texts as keys in which the fields of a schema that are there
have the types that are declared. -/
def TypedRecord (h : Heap) : RecordSchema → Value → Prop
  | .mk _ fields _, v => ∃ entries, h.cell? v = some (.dict entries) ∧ AllTexts entries ∧
      TypedFields h fields entries

/-- `TypedRecord` for the fields. -/
def TypedFields (h : Heap) : List SchemaField → Entries Key Value → Prop
  | [], _ => True
  | .mk name shape _ :: rest, entries =>
    (∀ v, entries.get? (Key.ofText name) = some v → Typed h shape v) ∧ TypedFields h rest entries

end

mutual

/-- Whether a value of the type that a shape declares is what the shape asks for: long enough, between
the bounds, and with all fields that are required. -/
def Meets (h : Heap) : Shape → Value → Prop
  | .text least, v => ∀ s, v.text? = some s → least ≤ s.length
  | .integer least most, v => ∀ n, v.integer? = some n →
      (∀ b ∈ most, n ≤ b) ∧ ∀ b ∈ least, b ≤ n
  | .number least most, v => ∀ x mark, v = .real x mark →
      (∀ b ∈ most, isAbove x b = false) ∧ ∀ b ∈ least, isBelow x b = false
  | .mapping item, v => ∀ entries, h.cell? v = some (.dict entries) → ∀ p ∈ entries,
      Meets h item p.2
  | .record schema, v => MeetsRecord h schema v
  | .optional shape, v => v = .none ∨ Meets h shape v
  | .anything, _ | .flag, _ | .texts, _ | .textOrMapping, _ => True

/-- Whether the fields of a schema that are required are there, and all that are there are what is asked
for. -/
def MeetsRecord (h : Heap) : RecordSchema → Value → Prop
  | .mk _ fields _, v => ∀ entries, h.cell? v = some (.dict entries) → MeetsFields h fields entries

/-- `MeetsRecord` for the fields. -/
def MeetsFields (h : Heap) : List SchemaField → Entries Key Value → Prop
  | [], _ => True
  | .mk name shape default :: rest, entries =>
    (match entries.get? (Key.ofText name) with
      | some v => Meets h shape v
      | none => default ≠ .required) ∧ MeetsFields h rest entries

end

theorem TypedRecord.dict {schema : RecordSchema} (ht : TypedRecord h schema v) :
    ∃ entries, h.cell? v = some (.dict entries) := by
  obtain ⟨name, fields, keeps⟩ := schema
  rw [TypedRecord] at ht
  exact ht.imp fun _ he => he.1

theorem typedFields_mem : ∀ {fields : List SchemaField}, TypedFields h fields entries →
    ∀ f ∈ fields, ∀ v, entries.get? (Key.ofText f.name) = some v → Typed h f.shape v
  | [], _ => fun _ hf => absurd hf List.not_mem_nil
  | .mk name shape default :: rest, ht => by
    rw [TypedFields] at ht
    exact List.forall_mem_cons.mpr ⟨ht.1, typedFields_mem ht.2⟩

/-! ### Demands -/

/-- Whether a field can be left out. -/
def canBeLeftOut : FieldDefault → Bool
  | .required => false
  | _ => true

mutual

/-- Whether a shape asks for nothing beyond the type. -/
def isLax : Shape → Bool
  | .text least => least == 0
  | .integer least most | .number least most => least.isNone && most.isNone
  | .mapping item => isLax item
  | .record schema => isLaxRecord schema
  | .optional shape => isLax shape
  | .anything | .flag | .texts | .textOrMapping => true

/-- `isLax` for a schema: no field is required, and none asks for more than its type. -/
def isLaxRecord : RecordSchema → Bool
  | .mk _ fields _ => areLax fields

/-- `isLaxRecord` for the fields. -/
def areLax : List SchemaField → Bool
  | [] => true
  | .mk _ shape default :: rest => canBeLeftOut default && isLax shape && areLax rest

end

mutual

/-- What asks for nothing beyond the type is met by everything. -/
theorem meets_of_isLax : ∀ {shape : Shape}, isLax shape = true → ∀ v, Meets h shape v
  | .text least, hl, v => by
    rw [Meets]
    intro s _
    rw [isLax, beq_iff_eq] at hl
    omega
  | .integer least most, hl, v => by
    simp only [isLax, Bool.and_eq_true, Option.isNone_iff_eq_none] at hl
    obtain ⟨rfl, rfl⟩ := hl
    rw [Meets]
    simp
  | .number least most, hl, v => by
    simp only [isLax, Bool.and_eq_true, Option.isNone_iff_eq_none] at hl
    obtain ⟨rfl, rfl⟩ := hl
    rw [Meets]
    simp
  | .mapping item, hl, v => by
    rw [isLax] at hl
    rw [Meets]
    exact fun _ _ p _ => meets_of_isLax hl p.2
  | .record schema, hl, v => by
    rw [isLax] at hl
    rw [Meets]
    exact meetsRecord_of_isLax hl v
  | .optional shape, hl, v => by
    rw [isLax] at hl
    rw [Meets]
    exact .inr (meets_of_isLax hl v)
  | .anything, _, _ | .flag, _, _ | .texts, _, _ | .textOrMapping, _, _ => by
    rw [Meets]
    trivial

/-- `meets_of_isLax` for a schema. -/
theorem meetsRecord_of_isLax : ∀ {schema : RecordSchema}, isLaxRecord schema = true →
    ∀ v, MeetsRecord h schema v
  | .mk _ fields _, hl, v => by
    rw [isLaxRecord] at hl
    rw [MeetsRecord]
    exact fun entries _ => meetsFields_of_isLax hl entries

/-- `meets_of_isLax` for the fields of a schema. -/
theorem meetsFields_of_isLax : ∀ {fields : List SchemaField}, areLax fields = true →
    ∀ entries, MeetsFields h fields entries
  | [], _, _ => by
    rw [MeetsFields]
    trivial
  | .mk name shape default :: rest, hl, entries => by
    simp only [areLax, Bool.and_eq_true] at hl
    obtain ⟨⟨hdefault, hshape⟩, hrest⟩ := hl
    rw [MeetsFields]
    refine ⟨?_, meetsFields_of_isLax hrest entries⟩
    split
    · exact meets_of_isLax hshape _
    · rintro rfl
      cases hdefault

end

/-- The fields of a schema that are required or ask for more than their type. -/
def demanding (fields : List SchemaField) : List SchemaField := fields.filter fun f => !areLax [f]

/-- Only such fields need to be looked at. -/
theorem meetsFields_iff : ∀ fields : List SchemaField,
    MeetsFields h fields entries ↔ ∀ f ∈ demanding fields, MeetsFields h [f] entries
  | [] => by
    rw [MeetsFields]
    simp [demanding]
  | .mk name shape default :: rest => by
    have hsplit : MeetsFields h (.mk name shape default :: rest) entries ↔
        MeetsFields h [.mk name shape default] entries ∧ MeetsFields h rest entries := by
      simp only [MeetsFields, and_true]
    rw [hsplit, meetsFields_iff rest, demanding, demanding, List.filter_cons]
    split
    · rw [List.forall_mem_cons]
    -- the first field asks for nothing, so it can be dropped
    · rename_i hlax
      rw [Bool.not_eq_true, Bool.not_eq_false'] at hlax
      exact and_iff_right (meetsFields_of_isLax hlax entries)

/-! ### Another heap -/

/-- Whether a map of values carries those of some kind to another heap: lists and dictionaries with texts
as keys become lists and dictionaries of what their parts become, and what leads nowhere stays. -/
structure Carries (h h' : Heap) (f : Value → Value) (kind : Value → Prop) : Prop where
  scalar : ∀ v, v.target? = none → f v = v
  absent : ∀ v, f v = .none → v = .none
  list : ∀ v items, kind v → h.cell? v = some (.list items) →
    h'.cell? (f v) = some (.list (items.map f))
  dict : ∀ v entries, kind v → h.cell? v = some (.dict entries) → AllTexts entries →
    h'.cell? (f v) = some (.dict (entries.mapValues f)) ∧ ∀ p ∈ entries, kind p.2

theorem target?_of_text? {s : String} (hv : v.text? = some s) : v.target? = none := by
  cases v <;> first | (cases hv; done) | rfl

theorem AllTexts.mapValues (ht : AllTexts entries) (f : Value → Value) :
    AllTexts (entries.mapValues f) := fun p hp => by
  obtain ⟨q, hq, rfl⟩ := List.mem_map.mp hp
  exact ht q hq

section Carried

variable {f : Value → Value} {kind : Value → Prop}

mutual

/-- What is carried to another heap has the same types there, and meets the same demands. -/
theorem typed_carried (hc : Carries h h' f kind) : ∀ {shape : Shape} {v : Value}, kind v →
    Typed h shape v → Typed h' shape (f v) ∧ (Meets h' shape (f v) ↔ Meets h shape v)
  | .anything, _, _, _ => by simp only [Typed, Meets, and_self]
  | .text least, v, _, ht => by
    rw [Typed] at ht
    obtain ⟨s, hs⟩ := ht
    rw [hc.scalar v (target?_of_text? hs)]
    simp only [Typed, Meets, hs, Option.some.injEq, exists_eq', true_and]
  | .flag, v, _, ht => by
    rw [Typed] at ht
    obtain ⟨b, rfl⟩ := ht
    rw [hc.scalar _ rfl]
    simp only [Typed, Meets, Value.bool.injEq, exists_eq', and_self]
  | .integer least most, v, _, ht => by
    rw [Typed] at ht
    obtain ⟨n, mark, rfl⟩ := ht
    rw [hc.scalar _ rfl]
    exact ⟨by rw [Typed]; exact ⟨n, mark, rfl⟩, by simp only [Meets]⟩
  | .number least most, v, _, ht => by
    rw [Typed] at ht
    obtain ⟨x, mark, rfl⟩ := ht
    rw [hc.scalar _ rfl]
    exact ⟨by rw [Typed]; exact ⟨x, mark, rfl⟩, by simp only [Meets]⟩
  | .texts, v, hv, ht => by
    rw [Typed] at ht
    obtain ⟨items, hi, hs⟩ := ht
    refine ⟨?_, by simp only [Meets]⟩
    rw [Typed]
    refine ⟨_, hc.list v items hv hi, fun u hu => ?_⟩
    obtain ⟨w, hw, rfl⟩ := List.mem_map.mp hu
    obtain ⟨s, hs⟩ := hs w hw
    exact ⟨s, (congrArg Value.text? (hc.scalar w (target?_of_text? hs))).trans hs⟩
  | .mapping item, v, hv, ht => by
    rw [Typed] at ht
    obtain ⟨entries, he, htexts, hitems⟩ := ht
    obtain ⟨he', hparts⟩ := hc.dict v entries hv he htexts
    have hall := fun p hp => typed_carried hc (hparts p hp) (hitems p hp)
    constructor
    · rw [Typed]
      refine ⟨_, he', htexts.mapValues f, fun p hp => ?_⟩
      obtain ⟨q, hq, rfl⟩ := List.mem_map.mp hp
      exact (hall q hq).1
    · simp only [Meets, he, he', Option.some.injEq, Cell.dict.injEq, forall_eq', Entries.mapValues,
        List.forall_mem_map]
      exact forall₂_congr fun p hp => (hall p hp).2
  | .record schema, v, hv, ht => by
    rw [Typed] at ht
    simpa only [Typed, Meets] using typedRecord_carried hc hv ht
  | .optional shape, v, hv, ht => by
    rw [Typed] at ht
    rcases ht with rfl | ht
    · rw [hc.scalar _ rfl]
      simp only [Typed, Meets, true_or, and_self]
    · obtain ⟨ht', hm⟩ := typed_carried hc hv ht
      -- being carried makes nothing absent
      have hnone : f v = .none ↔ v = .none :=
        ⟨hc.absent v, fun heq => by rw [heq]; exact hc.scalar _ rfl⟩
      simp only [Typed, Meets, hnone, hm, ht', or_true, and_self]
  | .textOrMapping, v, hv, ht => by
    rw [Typed] at ht
    refine ⟨?_, by simp only [Meets]⟩
    rw [Typed]
    rcases ht with ⟨s, hs⟩ | ⟨entries, he, htexts⟩
    · exact .inl ⟨s, (congrArg Value.text? (hc.scalar v (target?_of_text? hs))).trans hs⟩
    · exact .inr ⟨_, (hc.dict v entries hv he htexts).1, htexts.mapValues f⟩

/-- `typed_carried` for a record. -/
theorem typedRecord_carried (hc : Carries h h' f kind) : ∀ {schema : RecordSchema} {v : Value},
    kind v → TypedRecord h schema v →
      TypedRecord h' schema (f v) ∧ (MeetsRecord h' schema (f v) ↔ MeetsRecord h schema v)
  | .mk name fields keeps, v, hv, ht => by
    rw [TypedRecord] at ht
    obtain ⟨entries, he, htexts, hfields⟩ := ht
    obtain ⟨he', hparts⟩ := hc.dict v entries hv he htexts
    obtain ⟨hf, hm⟩ := typedFields_carried hc hparts hfields
    constructor
    · rw [TypedRecord]
      exact ⟨_, he', htexts.mapValues f, hf⟩
    · simpa only [MeetsRecord, he, he', Option.some.injEq, Cell.dict.injEq, forall_eq'] using hm

/-- `typed_carried` for the fields of a record. -/
theorem typedFields_carried (hc : Carries h h' f kind) : ∀ {fields : List SchemaField}
    {entries : Entries Key Value}, (∀ p ∈ entries, kind p.2) → TypedFields h fields entries →
      TypedFields h' fields (entries.mapValues f) ∧
        (MeetsFields h' fields (entries.mapValues f) ↔ MeetsFields h fields entries)
  | [], _, _, _ => by simp only [TypedFields, MeetsFields, and_self]
  | .mk name shape default :: rest, entries, hparts, ht => by
    rw [TypedFields] at ht
    obtain ⟨hfirst, hrest⟩ := ht
    obtain ⟨hrest', hm⟩ := typedFields_carried hc hparts hrest
    simp only [TypedFields, MeetsFields, Entries.get?_mapValues, hrest', hm, and_true]
    cases hget : entries.get? (Key.ofText name) with
    | none => simp
    | some v =>
      -- what is under a name is one of the parts, so it is of the kind that is carried
      obtain ⟨k, hmem⟩ := Entries.exists_of_get? hget
      obtain ⟨ht', hm'⟩ := typed_carried hc (hparts _ hmem) (hfirst v hget)
      simp [ht', hm']

end

end Carried

/-- Values are what they were in a larger heap. -/
theorem carries_extends (he : Extends h h') : Carries h h' id fun _ => True where
  scalar _ _ := rfl
  absent _ := id
  list v items _ hi := by
    obtain ⟨r, rfl⟩ := Heap.ref_of_cell? hi
    rw [List.map_id]
    exact he.read_of_some hi
  dict v entries _ hd _ := by
    obtain ⟨r, rfl⟩ := Heap.ref_of_cell? hd
    rw [Entries.mapValues_id]
    exact ⟨he.read_of_some hd, fun _ _ => trivial⟩

/-- A detached copy carries what can be reached from the original to its heap. -/
theorem carries_detach (h : Heap) (whole : Value) :
    Carries h (h.withCopies (h.copiedFor whole))
      (Value.rename (h.relocate (h.copiedFor whole)))
      fun v => ∀ r ∈ v.target?, r ∈ h.reachable whole := by
  -- lists and dictionaries do not stay
  have hcopied : ∀ {r : Ref} {c : Cell}, r ∈ h.reachable whole → h.read r = some c →
      h.stays (.ref r) = false → (h.withCopies (h.copiedFor whole)).read
        (h.relocate (h.copiedFor whole) r) = some (c.rename (h.relocate (h.copiedFor whole))) :=
    fun hr hc hs => (Heap.read_relocate (List.mem_filter.mpr ⟨hr, by rw [hs]; rfl⟩) hc).1
  refine ⟨fun v => Heap.rename_of_target? _, fun v hv => ?_, fun v items hv hi => ?_,
    fun v entries hv hd htexts => ?_⟩
  · cases v with
    | method receiver owner name mark => rw [Value.rename] at hv; split at hv <;> cases hv
    | _ => first | rfl | cases hv
  · obtain ⟨r, rfl⟩ := Heap.ref_of_cell? hi
    have hread : h.read r = some (.list items) := hi
    exact hcopied (hv r rfl) hread (by simp [Heap.stays, Heap.depth, Heap.staysTo, hread])
  · obtain ⟨r, rfl⟩ := Heap.ref_of_cell? hd
    have hread : h.read r = some (.dict entries) := hd
    have hstays : h.stays (.ref r) = false := by
      simp [Heap.stays, Heap.depth, Heap.staysTo, hread]
    refine ⟨(hcopied (hv r rfl) hread hstays).trans ?_, fun p hp s hs => ?_⟩
    · rw [Cell.rename, Entries.mapValues]
      refine congrArg (some ∘ Cell.dict) (List.map_congr_left fun p hp => ?_)
      obtain ⟨name, hname⟩ := htexts p hp
      rw [Heap.mapValues_of_text? _ hname]
    · exact Heap.reachable_closed (hv r rfl) (Heap.mem_targets hread
        (List.mem_flatMap.mpr ⟨p, hp, by simp⟩) hs)

end Schema

end PageMeta
