import PageMeta.Proofs.Object.Inert
import PageMeta.Proofs.Schema.Instance
import PageMeta.Schema.Check

/-!
# Reading spares what is there

Reading a value as a record makes new cells only, whatever the value is and whether it is read or
complained about.

## Key results

- `Sparing`: actions that change no cell that was there
- `read_sparing`: reading in any manner
-/

namespace PageMeta

namespace Heap

/-- Whether an action changes no cell that was there, whether it succeeds or fails. -/
structure Sparing {α : Type} (x : Action α) : Prop where
  outcome : ∀ h, Outcome x h (fun _ h' => Extends h h') (Extends h)

namespace Sparing

variable {α β : Type} {x : Action α} {f : α → Action β}

theorem pure (a : α) : Sparing (pure a) := ⟨fun h => .refl _ h⟩

theorem throw (e : Error) : Sparing (throw e : Action α) := ⟨fun h => .refl _ h⟩

theorem bind (hx : Sparing x) (hf : ∀ a, Sparing (f a)) : Sparing (x >>= f) where
  outcome h := Outcome.bind ((hx.outcome h).mono
    (fun a h₁ he => ((hf a).outcome h₁).mono (fun _ _ => he.trans) fun _ => he.trans) fun _ => id)

/-- An action that goes by what is there. -/
theorem get_bind {f : Heap → Action β} (hf : ∀ h, Sparing (f h)) : Sparing (get >>= f) :=
  ⟨fun h => Outcome.get_bind ((hf h).outcome h)⟩

theorem of_makes (hx : Makes x) : Sparing x where
  outcome h := by
    obtain ⟨a, h', hrun, he⟩ := hx.run h
    exact Outcome.of_ok hrun he

theorem map (g : α → β) (hx : Sparing x) : Sparing (g <$> x) where
  outcome h := by
    have ho := hx.outcome h
    unfold Outcome at ho ⊢
    simp only [Functor.map, EStateM.map]
    cases hrun : x h with
    | ok a h' => rw [hrun] at ho; exact ho
    | error e h' => rw [hrun] at ho; exact ho

theorem alloc (c : Cell) : Sparing (alloc c) := .of_makes (.alloc c)

theorem tryCatch {handle : Error → Action α} (hx : Sparing x) (hh : ∀ e, Sparing (handle e)) :
    Sparing (tryCatch x handle) where
  outcome h := Outcome.tryCatch (hx.outcome h) fun e h₁ he =>
    ((hh e).outcome h₁).mono (fun _ _ => he.trans) fun _ => he.trans

end Sparing

theorem settle_sparing (v : Value) : Sparing (settle v) := .of_makes (settle_makes v)

theorem elements_sparing (v : Value) : Sparing (elements v) := ⟨elements_extends v⟩

theorem getAttribute_sparing (v : Value) (name : Name) : Sparing (Object.getAttribute v name) :=
  ⟨getAttribute_extends v name⟩

end Heap

namespace Schema

open Heap (Sparing)

variable {manner : Manner}

/-! ### Parts of a value -/

theorem ofScalar_sparing (v : Value) (read : Except IssueKind Value) : Sparing (ofScalar v read) := by
  cases read with
  | ok w => exact .map _ (Heap.settle_sparing w)
  | error kind => exact .get_bind fun _ => .pure _

theorem checkTexts_sparing (manner : Manner) : ∀ (vs : List Value) (n : Nat),
    Sparing (checkTexts manner n vs)
  | [], _ => .pure _
  | v :: rest, n => by
    rw [checkTexts]
    exact (ofScalar_sparing v _).bind fun _ => (checkTexts_sparing manner rest (n + 1)).bind
      fun _ => .pure _

theorem listItems_sparing (manner : Manner) (v : Value) : Sparing (listItems manner v) := by
  refine .get_bind fun h => ?_
  split
  all_goals first | exact .pure _ | exact .map _ (Heap.elements_sparing v)

theorem checkList_sparing (manner : Manner) (v : Value) : Sparing (checkList manner v) := by
  refine (listItems_sparing manner v).bind fun items? => ?_
  split
  · refine (checkTexts_sparing manner _ 0).bind fun texts => ?_
    split
    · exact .map _ ((Sparing.alloc _).bind fun _ => .pure _)
    · exact .pure _
  · exact .get_bind fun _ => .pure _

theorem checkKey_sparing (manner : Manner) (k : Key) : Sparing (checkKey manner k) :=
  .get_bind fun _ => (ofScalar_sparing _ _).bind fun _ => .pure _

theorem checkEntries_sparing {checkItem : Value → Heap.Action (Checked Value)}
    (hitem : ∀ v, Sparing (checkItem v)) : ∀ es : List (Key × Value),
      Sparing (checkEntries manner checkItem es)
  | [] => .pure _
  | (k, v) :: rest => by
    rw [checkEntries]
    exact .get_bind fun _ => (checkKey_sparing manner k).bind fun _ => (hitem v).bind fun _ =>
      (checkEntries_sparing hitem rest).bind fun _ => .pure _

theorem checkMapping_sparing {checkItem : Value → Heap.Action (Checked Value)}
    (hitem : ∀ v, Sparing (checkItem v)) (v : Value) : Sparing (checkMapping manner checkItem v) := by
  refine .get_bind fun h => ?_
  split
  · split
    · exact .pure _
    · refine (checkEntries_sparing hitem _).bind fun pairs => ?_
      split
      · exact .map _ ((Sparing.alloc _).bind fun _ => .pure _)
      · exact .pure _
  · exact .pure _

/-- What an object says under the name of a field is asked for, which makes new cells only. -/
theorem value?_sparing (name : String) (origin : Origin) : Sparing (origin.value? name) := by
  cases origin with
  | entries own => exact .pure _
  | attributes object others =>
    refine .tryCatch (.map _ (Heap.getAttribute_sparing _ _)) fun e => ?_
    split
    · exact .pure _
    · exact .get_bind fun _ => .pure _

theorem assembleRead_sparing (name : String) (surplus : Surplus)
    (fields : List (String × Value × Bool)) (kept : Entries Key Value) :
    Sparing (assembleRead name surplus fields kept) :=
  .of_makes ((keptEntries_makes kept).bind fun _ => newRecord_makes _ _ _ _)

/-! ### Shapes -/

mutual

/-- Checking a value against a shape makes new cells only. -/
theorem check_sparing (manner : Manner) : ∀ (shape : Shape) (v : Value),
    Sparing (check manner shape v)
  | .anything, v => by
    rw [check]
    exact .pure _
  | .text least, v => by
    rw [check]
    exact ofScalar_sparing v _
  | .flag, v => by
    rw [check]
    exact ofScalar_sparing v _
  | .integer least most, v => by
    rw [check]
    exact ofScalar_sparing v _
  | .number least most, v => by
    rw [check]
    exact ofScalar_sparing v _
  | .texts, v => by
    rw [check]
    exact checkList_sparing manner v
  | .mapping item, v => by
    rw [check]
    exact checkMapping_sparing (check_sparing manner item) v
  | .record schema, v => by
    rw [check]
    exact checkRecord_sparing manner schema v
  | .optional shape, v => by
    cases v with
    | none =>
      rw [check]
      exact .pure _
    | _ =>
      rw [check]
      · exact check_sparing manner shape _
      · simp
  | .textOrMapping, v => by
    rw [check]
    refine (ofScalar_sparing v _).bind fun text => ?_
    split
    · exact .pure _
    · refine (checkMapping_sparing (fun _ => .pure _) v).bind fun pairs => ?_
      split <;> exact .pure _

/-- `check_sparing` for a record. -/
theorem checkRecord_sparing (manner : Manner) : ∀ (schema : RecordSchema) (v : Value),
    Sparing (checkRecord manner schema v)
  | .mk name fields keeps, v => by
    rw [checkRecord]
    refine .get_bind fun h => ?_
    have hread : Sparing (match origin? h manner v with
        | some origin =>
          let schema := RecordSchema.mk name fields keeps
          let surplus := manner.surplusFor keeps
          match foreignIssue? h manner (origin.values schema surplus) with
          | some found => return .error [found]
          | none => do
            let declared ← checkFields manner v origin fields
            match both Prod.mk declared (checkSurplus (← get) surplus (origin.surplus schema)) with
            | .ok (values, kept) => .ok <$> assembleRead name surplus values kept
            | .error issues => return .error issues
        | none => return .error [issue h (manner.notRecord name) v] : Heap.Action (Checked Value)) := by
      split
      · rename_i origin _
        dsimp only
        split
        · exact .pure _
        · refine (checkFields_sparing manner v origin fields).bind fun declared =>
            .get_bind fun h₁ => ?_
          split
          · exact .map _ (assembleRead_sparing _ _ _ _)
          · exact .pure _
      · exact .pure _
    -- a record of the schema itself is taken as it is
    dsimp only
    split
    · split
      · exact .pure _
      · exact hread
    · exact hread

/-- `check_sparing` for the fields of a record. -/
theorem checkFields_sparing (manner : Manner) (whole : Value) (origin : Origin) :
    ∀ fields : List SchemaField, Sparing (checkFields manner whole origin fields)
  | [] => by
    rw [checkFields]
    exact .pure _
  | .mk name shape default :: rest => by
    rw [checkFields]
    refine (value?_sparing name origin).bind fun found => ?_
    have hrest := fun first : Checked (Value × Bool) =>
      (checkFields_sparing manner whole origin rest).bind fun others =>
        Sparing.pure (both (fun v vs => (name, v) :: vs) (first.mapError (within name)) others)
    split
    · exact (Sparing.pure _).bind hrest
    · exact (Sparing.map _ (check_sparing manner shape _)).bind hrest
    · exact .get_bind fun h => (Sparing.pure _).bind hrest
    · exact (Sparing.map _ (.of_makes (makeDefault_makes (instantiate_makes shape) default))).bind hrest

end

/-- Reading a value as a record makes new cells only. -/
theorem read_sparing (manner : Manner) (schema : RecordSchema) (v : Value) :
    Sparing (read manner schema v) := by
  refine (checkRecord_sparing manner schema v).bind fun checked => ?_
  split
  · exact .pure _
  · exact .throw _

end Schema

end PageMeta
