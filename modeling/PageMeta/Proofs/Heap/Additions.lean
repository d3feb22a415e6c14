import PageMeta.Proofs.AttributeMap.Kept

/-!
# What cells are added

Copying and storing make lists, dictionaries and attribute maps, and no objects.  `Adds kind h h'`
says that every cell of a later heap was there before or is of some kind, so what is no cell of that
kind was there as it is now.

## Key results

- `Adds.trans`, `Adds.push`, `Adds.write`: kinds of cells along changes
- `build_furnishes`: building a tree makes containers only
- `upkeep_keepsObjects`: so do operations on attribute maps
-/

namespace PageMeta

namespace Heap

/-- A later heap whose cells are those that were there, or of some kind. -/
structure Adds (kind : Cell → Prop) (h h' : Heap) : Prop where
  size_le : h.size ≤ h'.size
  cells : ∀ r c, h'.read r = some c → kind c ∨ h.read r = some c

variable {h h' h'' : Heap} {kind kind' : Cell → Prop} {c : Cell} {v : Value}

namespace Adds

theorem refl (kind : Cell → Prop) (h : Heap) : Adds kind h h :=
  ⟨Nat.le_refl _, fun _ _ hr => .inr hr⟩

theorem trans (h₁ : Adds kind h h') (h₂ : Adds kind h' h'') : Adds kind h h'' :=
  ⟨Nat.le_trans h₁.size_le h₂.size_le, fun r c hr => (h₂.cells r c hr).elim .inl (h₁.cells r c)⟩

theorem mono (ha : Adds kind h h') (hk : ∀ c, kind c → kind' c) : Adds kind' h h' :=
  ⟨ha.size_le, fun r c hr => (ha.cells r c hr).imp_left (hk c)⟩

theorem of_cells (hc : h'.cells = h.cells) : Adds kind h h' :=
  ⟨by rw [size, size, hc], fun r c hr => .inr (by rwa [read, hc] at hr)⟩

/-- What is no cell of the kind was there. -/
theorem read_of_not (ha : Adds kind h h') {r : Ref} (hr : h'.read r = some c) (hc : ¬ kind c) :
    h.read r = some c := (ha.cells r c hr).resolve_left hc

theorem push (hc : kind c) : Adds kind h (h.push c) := by
  refine ⟨by rw [size_push]; exact Nat.le_succ _, fun r c' hr => ?_⟩
  rcases read_push_cases hr with ⟨-, rfl⟩ | hr
  · exact .inl hc
  · exact .inr hr

theorem write {r : Ref} (hc : kind c) : Adds kind h (h.write r c) := by
  refine ⟨by rw [size_write], fun s c' hs => ?_⟩
  rcases read_write_cases hs with ⟨-, rfl⟩ | ⟨-, hs⟩
  · exact .inl hc
  · exact .inr hs

end Adds

/-! ### Building -/

/-- Whether the cells that an action makes are containers only. -/
structure Furnishes {α : Type} (x : Action α) : Prop where
  outcome : ∀ h, Outcome x h (fun _ h' => Adds (·.isContainer = true) h h')
    (Adds (·.isContainer = true) h)

namespace Furnishes

variable {α β : Type} {x : Action α} {f : α → Action β}

theorem pure (a : α) : Furnishes (pure a) := ⟨fun h => .refl _ h⟩

theorem bind (hx : Furnishes x) (hf : ∀ a, Furnishes (f a)) : Furnishes (x >>= f) where
  outcome h := Outcome.bind ((hx.outcome h).mono
    (fun a h₁ ha => ((hf a).outcome h₁).mono (fun _ _ => ha.trans) fun _ => ha.trans) fun _ => id)

theorem alloc (hc : c.isContainer = true) : Furnishes (alloc c) := ⟨fun _ => .push hc⟩

/-- What is known after a run that succeeds. -/
theorem adds {a : α} (hx : Furnishes x) (hrun : x h = .ok a h') :
    Adds (·.isContainer = true) h h' := (hx.outcome h).result hrun

end Furnishes

/-- Scalars are no cells. -/
theorem settle_furnishes (v : Value) : Furnishes (settle v) := ⟨fun h => by
  obtain ⟨mark, h', hrun, -, hc⟩ := settle_marked h v
  exact Outcome.of_ok hrun (.of_cells hc)⟩

theorem settleKey_furnishes (key : Key) : Furnishes (settleKey key) := by
  cases key with
  | atom v => exact (settle_furnishes v).bind fun _ => .pure _
  | _ => exact .pure _

theorem make_furnishes (building : Building) (es : Entries Key Value) :
    Furnishes (building.make es) := by
  cases building with
  | plain => exact .bind (.alloc rfl) fun _ => .pure _
  | wrapped => exact .bind (.alloc rfl) fun _ => .bind (.alloc rfl) fun _ => .pure _

mutual

/-- Building a tree makes containers only. -/
theorem build_furnishes (building : Building) : ∀ u : Tree Key, Furnishes (build building u)
  | .leaf v => by
    rw [build]
    exact settle_furnishes v
  | .list us => by
    rw [build]
    exact (buildList_furnishes building us).bind fun _ => .bind (.alloc rfl) fun _ => .pure _
  | .map us => by
    rw [build]
    exact (buildEntries_furnishes building us).bind (make_furnishes building)

/-- `build_furnishes`, item by item. -/
theorem buildList_furnishes (building : Building) : ∀ us : List (Tree Key),
    Furnishes (buildList building us)
  | [] => .pure _
  | u :: us => by
    rw [buildList]
    exact (build_furnishes building u).bind fun _ =>
      (buildList_furnishes building us).bind fun _ => .pure _

/-- `build_furnishes`, entry by entry. -/
theorem buildEntries_furnishes (building : Building) : ∀ us : List (Key × Tree Key),
    Furnishes (buildEntries building us)
  | [] => .pure _
  | (key, u) :: us => by
    rw [buildEntries]
    exact (settleKey_furnishes key).bind fun _ => (build_furnishes building u).bind fun _ =>
      (buildEntries_furnishes building us).bind fun _ => .pure _

end

theorem buildText_furnishes (building : Building) (t : Tree String) :
    Furnishes (buildText building t) := build_furnishes building _

/-- Copying something into a map makes containers only. -/
theorem wrap_furnishes (v : Value) : Furnishes (wrap v) :=
  .bind ⟨fun h => Outcome.ask (fun _ _ => .refl _ h) (.refl _ h)⟩ (build_furnishes .wrapped)

theorem putEntry_furnishes (r : Ref) (key : Key) (v : Value) : Furnishes (putEntry r key v) := by
  refine ⟨fun h => ?_⟩
  unfold Outcome putEntry putEntries
  cases h.dict? r with
  | none => exact Adds.refl _ h
  | some p => exact Adds.write rfl

/-! ### Operations on attribute maps -/

/-- A later heap without new objects, in which every cell that belongs to no map stays, and all keys
of maps. -/
structure KeepsObjects (h h' : Heap) : Prop extends KeepsKeys h h' where
  adds : Adds (·.isContainer = true) h h'

namespace KeepsObjects

theorem refl (hs : h.Sound) : KeepsObjects h h := ⟨.refl hs, .refl _ h⟩

theorem trans (h₁ : KeepsObjects h h') (h₂ : KeepsObjects h' h'') : KeepsObjects h h'' :=
  ⟨h₁.toKeepsKeys.trans h₂.toKeepsKeys, h₁.adds.trans h₂.adds⟩

/-- What is known of the cells that stay and of those that are added, together. -/
theorem of_furnishes {α : Type} {x : Action α} (hx : Furnishes x)
    (hk : Outcome x h (fun _ h' => KeepsKeys h h') (KeepsKeys h)) :
    Outcome x h (fun _ h' => KeepsObjects h h') (KeepsObjects h) :=
  (hk.and (hx.outcome h)).mono (fun _ _ hb => ⟨hb.1, hb.2⟩) fun _ hb => ⟨hb.1, hb.2⟩

end KeepsObjects

end Heap

namespace AttributeMap

open Heap

/-- Operations on values that are there make no objects. -/
theorem upkeep_keepsObjects : Upkeep Heap.Fine KeepsObjects where
  refl := .refl
  trans := .trans
  keeps hk := hk.toKeeps
  cells hs hc := ⟨upkeep_keepsKeys.cells hs hc, .of_cells hc⟩
  isMap := id
  remains hk := hk.toKeeps.maps _
  inner _ _ := id
  stays hk hv := hk.toKeeps.fine hv
  absent := upkeep_keepsKeys.absent
  entries hs hv := upkeep_keepsKeys.entries hs hv
  store hs hm hk hv := KeepsObjects.of_furnishes
    ((wrap_furnishes _).bind (putEntry_furnishes _ _)) (upkeep_keepsKeys.store hs hm hk hv)
  storeMap hs hm hk hv hmap := KeepsObjects.of_furnishes (putEntry_furnishes _ _ _)
    (upkeep_keepsKeys.storeMap hs hm hk hv hmap)

theorem create_furnishes (source : Value) : Furnishes (create source) := by
  refine .bind ⟨fun h => Outcome.get_bind (Adds.refl _ h)⟩ fun g => ?_
  split
  · exact make_furnishes .wrapped []
  · split
    · exact wrap_furnishes _
    · exact ⟨fun h => Adds.refl _ h⟩

/-- Making a map makes no objects. -/
theorem create_keepsObjects {h : Heap} {v : Value} (hs : h.Sound) (hv : h.Fine v) :
    Outcome (create v) h (fun _ h' => KeepsObjects h h') (KeepsObjects h) := by
  have hfail : KeepsKeys h h := .refl hs
  refine KeepsObjects.of_furnishes (create_furnishes v) (Outcome.get_bind ?_)
  split
  -- without a source the map is empty
  · have hg := Grows.make hs List.Pairwise.nil (fun p hp => by cases hp) fun p hp => by cases hp
    exact Outcome.of_ok rfl (.of_grows hg)
  · split
    · exact (wrap_outcome hs hv).mono (fun _ _ hw => .of_grows hw.1) fun h' he => he ▸ hfail
    · exact hfail

end AttributeMap

end PageMeta
