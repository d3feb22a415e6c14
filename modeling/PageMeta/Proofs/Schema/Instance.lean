import PageMeta.Proofs.Object.Inert
import PageMeta.Proofs.Value.Key
import PageMeta.Schema.Check

/-!
# Making records

Records and the defaults of their fields are new cells, and making them always succeeds.

## Key results

- `Makes`: whether an action always succeeds, and makes new cells only
- `instantiate_makes`: records with their defaults are made so
- `assembleRead_run`: what was read becomes a record of the schema
-/

namespace PageMeta

namespace Heap

/-- Whether an action always succeeds, and makes new cells only. -/
structure Makes {α : Type} (x : Action α) : Prop where
  run : ∀ h, ∃ a h', x h = .ok a h' ∧ Extends h h'

namespace Makes

variable {α β : Type} {x : Action α} {f : α → Action β}

theorem pure (a : α) : Makes (pure a) := ⟨fun h => ⟨a, h, rfl, Agree.refl _ _⟩⟩

theorem bind (hx : Makes x) (hf : ∀ a, Makes (f a)) : Makes (x >>= f) where
  run h := by
    obtain ⟨a, h₁, hrun, he⟩ := hx.run h
    obtain ⟨b, h₂, hrun', he'⟩ := (hf a).run h₁
    exact ⟨b, h₂, (run_bind_ok hrun).trans hrun', he.trans he'⟩

theorem map (g : α → β) (hx : Makes x) : Makes (g <$> x) where
  run h := by
    obtain ⟨a, h₁, hrun, he⟩ := hx.run h
    exact ⟨g a, h₁, by simp only [Functor.map, EStateM.map, hrun], he⟩

theorem alloc (c : Cell) : Makes (alloc c) := ⟨fun h => ⟨_, _, rfl, extends_push h c⟩⟩

end Makes

theorem settle_makes (v : Value) : Makes (settle v) := ⟨fun h => by
  obtain ⟨u, h', hrun, hc, -⟩ := settle_cells h v
  exact ⟨u, h', hrun, extends_of_cells hc⟩⟩

theorem settleKey_makes (key : Key) : Makes (settleKey key) := by
  cases key with
  | atom v => exact (settle_makes v).bind fun _ => .pure _
  | tuple => exact .pure _

mutual

/-- Building a tree always succeeds. -/
theorem build_makes : ∀ u : Tree Key, Makes (build .plain u)
  | .leaf v => by
    rw [build]
    exact settle_makes v
  | .list us => by
    rw [build]
    exact (buildList_makes us).bind fun _ => .bind (.alloc _) fun _ => .pure _
  | .map us => by
    rw [build]
    exact (buildEntries_makes us).bind fun _ => .bind (.alloc _) fun _ => .pure _

/-- `build_makes`, item by item. -/
theorem buildList_makes : ∀ us : List (Tree Key), Makes (buildList .plain us)
  | [] => .pure _
  | u :: us => by
    rw [buildList]
    exact (build_makes u).bind fun _ => (buildList_makes us).bind fun _ => .pure _

/-- `build_makes`, entry by entry. -/
theorem buildEntries_makes : ∀ us : List (Key × Tree Key), Makes (buildEntries .plain us)
  | [] => .pure _
  | (key, u) :: us => by
    rw [buildEntries]
    exact (settleKey_makes key).bind fun _ => (build_makes u).bind fun _ =>
      (buildEntries_makes us).bind fun _ => .pure _

end

end Heap

namespace Schema

open Heap (Extends Makes)

/-! ### Defaults -/

/-- Whether a value is a record of the schema of a name. -/
def IsRecord (h : Heap) (name : String) (v : Value) : Prop :=
  ∃ attributes others given, h.cell? v = some (.record name attributes others given)

theorem newRecord_run (schema : String) (fields : Entries String Value)
    (others : Option (Entries Key Value)) (given : List Key) (h : Heap) :
    ∃ v h', newRecord schema fields others given h = .ok v h' ∧ Extends h h' ∧
      IsRecord h' schema v := by
  have he := Heap.extends_push h (.dict (Heap.textKeys fields))
  cases others with
  | none =>
    exact ⟨_, _, rfl, he.trans (Heap.extends_push _ _), _, _, _, Heap.read_alloc_new _ _⟩
  | some entries =>
    exact ⟨_, _, rfl, (he.trans (Heap.extends_push _ _)).trans (Heap.extends_push _ _), _, _, _,
      Heap.read_alloc_new _ _⟩

theorem newRecord_makes (schema : String) (fields : Entries String Value)
    (others : Option (Entries Key Value)) (given : List Key) :
    Makes (newRecord schema fields others given) := ⟨fun h => by
  obtain ⟨v, h', hrun, he, -⟩ := newRecord_run schema fields others given h
  exact ⟨v, h', hrun, he⟩⟩

theorem makeDefault_makes {make : Heap.Action Value} (hm : Makes make) (default : FieldDefault) :
    Makes (makeDefault make default) := by
  cases default with
  | required => exact .pure _
  | value t => exact Heap.build_makes _
  | record => exact hm
  | recordUnder key => exact hm.bind fun _ => .bind (.alloc _) fun _ => .pure _

mutual

/-- The record of a shape is made with its defaults. -/
theorem instantiate_makes : ∀ shape : Shape, Makes (instantiate shape)
  | .record schema => by rw [instantiate]; exact instantiateSchema_makes schema
  | .mapping item => by rw [instantiate]; exact instantiate_makes item
  | .optional shape => by rw [instantiate]; exact instantiate_makes shape
  | .anything => .pure _
  | .text _ => .pure _
  | .flag => .pure _
  | .integer _ _ => .pure _
  | .number _ _ => .pure _
  | .texts => .pure _
  | .textOrMapping => .pure _

theorem instantiateSchema_makes : ∀ schema : RecordSchema, Makes (instantiateSchema schema)
  | .mk name fields keeps => by
    rw [instantiateSchema]
    exact (instantiateFields_makes fields).bind fun _ => newRecord_makes _ _ _ _

theorem instantiateFields_makes : ∀ fields : List SchemaField, Makes (instantiateFields fields)
  | [] => .pure _
  | .mk name shape default :: rest => by
    rw [instantiateFields]
    exact (makeDefault_makes (instantiate_makes shape) default).bind fun _ =>
      (instantiateFields_makes rest).bind fun _ => .pure _

end

/-! ### Records of what was read -/

theorem keptEntries_makes : ∀ entries : Entries Key Value, Makes (keptEntries entries)
  | [] => .pure _
  | (k, v) :: rest => by
    rw [keptEntries]
    refine .bind ?_ fun _ => (keptEntries_makes rest).bind fun _ => .pure _
    unfold keptKey
    split
    · exact .map _ (Heap.settle_makes _)
    · exact .pure _

/-- What was read becomes a record of the schema. -/
theorem assembleRead_run (name : String) (surplus : Surplus) (fields : List (String × Value × Bool))
    (kept : Entries Key Value) (h : Heap) :
    ∃ v h', assembleRead name surplus fields kept h = .ok v h' ∧ Extends h h' ∧
      IsRecord h' name v := by
  obtain ⟨es, h₁, hkept, he⟩ := (keptEntries_makes kept).run h
  obtain ⟨v, h₂, hrun, he', hv⟩ := newRecord_run name _ _ _ h₁
  exact ⟨v, h₂, (run_bind_ok hkept).trans hrun, he.trans he', hv⟩

end Schema

end PageMeta
