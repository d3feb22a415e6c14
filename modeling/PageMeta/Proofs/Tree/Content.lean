import PageMeta.Json.Printer
import PageMeta.Proofs.Heap.Measures
import PageMeta.Proofs.Tree.Layers
import PageMeta.Proofs.Tree.Twin

/-!
# The content of trees

A scalar is one of many objects with its content.  Which one it is makes no difference for what is
asked of plain data and for how they are written; only for what is no number it does, which is equal to
nothing but itself.

## Key results

- `mapLeaves_deepMerge`: leaves can be mapped before or after a merge
- `alike_content`, `exceeds_content`: what is asked of plain data is asked of their content
- `writeAt_content`: what is written is the content
-/

namespace PageMeta

/-- The content of a scalar: the object of that content which the library itself names. -/
def Value.content : Value → Value
  | .int n _ => .int n .shared
  | .text s _ => .text s .shared
  | .real x mark => .real x (if x = .nan then mark else .shared)
  | v => v

theorem Value.twin_content (v : Value) : v.content.twin v = true := by
  cases v with
  | real x mark =>
    by_cases hx : x = .nan
    · subst hx
      simp [content, twin]
    · simp [content, twin, Binary64.same_self x hx]
  | _ => simp [content, twin]

namespace Tree

variable {κ : Type} {t u : Tree String} {ts : List (String × Tree String)} {key : String}
  {f : Value → Value}

/-! ### Mapping leaves -/

theorem mapLeavesEntries_eq (f : Value → Value) (ts : List (String × Tree String)) :
    mapLeavesEntries f ts = ts.map fun p => (p.1, mapLeaves f p.2) := by
  induction ts with
  | nil => rfl
  | cons p ts ih => rw [mapLeavesEntries, ih, List.map_cons]

theorem mapLeavesList_eq (f : Value → Value) (ts : List (Tree κ)) :
    mapLeavesList f ts = ts.map (mapLeaves f) := by
  induction ts with
  | nil => rfl
  | cons t ts ih => rw [mapLeavesList, ih, List.map_cons]

@[simp] theorem get?_mapLeavesEntries (f : Value → Value) (key : String)
    (ts : List (String × Tree String)) :
    Entries.get? key (mapLeavesEntries f ts) = (Entries.get? key ts).map (mapLeaves f) := by
  induction ts with
  | nil => rfl
  | cons p ts ih =>
    obtain ⟨k, t⟩ := p
    rw [mapLeavesEntries, Entries.get?, Entries.get?]
    split
    · rfl
    · exact ih

@[simp] theorem has_mapLeavesEntries (f : Value → Value) (key : String)
    (ts : List (String × Tree String)) :
    Entries.has key (mapLeavesEntries f ts) = Entries.has key ts := by
  rw [Entries.has, Entries.has, get?_mapLeavesEntries, Option.isSome_map]

@[simp] theorem isMap_mapLeaves (f : Value → Value) (t : Tree String) :
    (t.mapLeaves f).isMap = t.isMap := by
  cases t <;> rfl

@[simp] theorem under_mapLeaves (hf : f .none = .none) (t : Tree String) (key : String) :
    (t.mapLeaves f).under key = (t.under key).mapLeaves f := by
  cases t with
  | leaf v => exact congrArg leaf hf.symm
  | list ts => exact congrArg leaf hf.symm
  | map ts =>
    rw [mapLeaves, under, under, get?_mapLeavesEntries]
    cases Entries.get? key ts with
    | none => exact congrArg leaf hf.symm
    | some u => rfl

mutual

/-- Leaves can be mapped before or after a merge. -/
theorem mapLeaves_deepMerge (f : Value → Value) : ∀ t u : Tree String,
    (t.deepMerge u).mapLeaves f = (t.mapLeaves f).deepMerge (u.mapLeaves f)
  | .map old, .map new => by
    have hold := mapLeaves_mergeOld f old new
    rw [mapLeavesEntries_eq] at hold
    rw [deepMerge, mapLeaves, mapLeaves, mapLeaves, deepMerge, mapLeavesEntries_eq, List.map_append,
      hold, mapLeavesEntries_eq f new, List.filter_map]
    simp only [Function.comp_def, has_mapLeavesEntries]
  | .leaf v, u => by
    rw [deepMerge_of_not_map rfl, deepMerge_of_not_map (by rw [isMap_mapLeaves]; rfl)]
  | .list ts, u => by
    rw [deepMerge_of_not_map rfl, deepMerge_of_not_map (by rw [isMap_mapLeaves]; rfl)]
  | .map old, .leaf v => rfl
  | .map old, .list us => rfl

/-- `mapLeaves_deepMerge`, for the old entries. -/
theorem mapLeaves_mergeOld (f : Value → Value) : ∀ (old new : List (String × Tree String)),
    mapLeavesEntries f (mergeOld old new) =
      mergeOld (mapLeavesEntries f old) (mapLeavesEntries f new)
  | [], _ => rfl
  | (key, t) :: old, new => by
    rw [mergeOld, mapLeavesEntries, mapLeavesEntries, mergeOld, mapLeaves_mergeOld f old new,
      get?_mapLeavesEntries]
    cases Entries.get? key new with
    | none => rfl
    | some u => exact congrArg (fun t => (key, t) :: _) (mapLeaves_deepMerge f t u)

end

/-! ### Content -/

/-- The content of a tree. -/
def content (t : Tree κ) : Tree κ := t.mapLeaves Value.content

/-- The content of entries. -/
abbrev contents (ts : Entries String (Tree String)) : Entries String (Tree String) :=
  mapLeavesEntries Value.content ts

@[simp] theorem isAbsent_content (t : Tree String) : t.content.isAbsent = t.isAbsent := by
  cases t with
  | leaf v => cases v <;> rfl
  | list ts => rfl
  | map ts => rfl

theorem content_under (t : Tree String) (key : String) :
    (t.under key).content = t.content.under key := (under_mapLeaves rfl t key).symm

@[simp] theorem length_content (t : Tree String) : t.content.length = t.length := by
  cases t with
  | leaf v => cases v <;> rfl
  | list ts => rw [content, mapLeaves, length, length, mapLeavesList_eq, List.length_map]
  | map ts => rw [content, mapLeaves, length, length, mapLeavesEntries_eq, List.length_map]

@[simp] theorem truth_content (t : Tree String) : t.content.truth = t.truth := by
  cases t with
  | leaf v => cases v <;> rfl
  | list ts => rw [content, mapLeaves, truth, truth, mapLeavesList_eq, List.length_map]
  | map ts => rw [content, mapLeaves, truth, truth, mapLeavesEntries_eq, List.length_map]

@[simp] theorem exceeds_content (t : Tree String) (limit : Nat) :
    t.content.exceeds limit = t.exceeds limit := by
  rw [exceeds, exceeds, truth_content, length_content]

mutual

/-- Trees are alike if their contents are. -/
theorem alike_content : ∀ t u : Tree String, t.content.alike u.content = t.alike u
  | .leaf v, .leaf w => by
    show v.content.sameScalar true w.content = v.sameScalar true w
    rw [Value.sameScalar_congr_left v.twin_content, Value.sameScalar_congr_right w.twin_content]
  | .list ts, .list us => alikeList_content ts us
  | .map ts, .map us => by
    have hentries := alikeEntries_content ts us
    show ((contents ts).length == (contents us).length && alikeEntries (contents ts) (contents us)) =
      (ts.length == us.length && alikeEntries ts us)
    rw [hentries, contents, contents, mapLeavesEntries_eq, mapLeavesEntries_eq, List.length_map,
      List.length_map]
  | .leaf _, .list _ | .leaf _, .map _ | .list _, .leaf _ | .list _, .map _ | .map _, .leaf _
  | .map _, .list _ => rfl

/-- `alike_content`, item by item. -/
theorem alikeList_content : ∀ ts us : List (Tree String),
    alikeList (mapLeavesList Value.content ts) (mapLeavesList Value.content us) = alikeList ts us
  | [], [] | [], _ :: _ | _ :: _, [] => rfl
  | t :: ts, u :: us => congrArg₂ and (alike_content t u) (alikeList_content ts us)

/-- `alike_content`, entry by entry. -/
theorem alikeEntries_content : ∀ ts us : List (String × Tree String),
    alikeEntries (contents ts) (contents us) = alikeEntries ts us
  | [], _ => rfl
  | (key, t) :: ts, us => by
    rw [contents, mapLeavesEntries, alikeEntries, alikeEntries, alikeEntries_content ts us,
      get?_mapLeavesEntries]
    cases Entries.get? key us with
    | none => rfl
    | some u => exact congrArg (· && _) (alike_content t u)

end

/-! ### Writing -/

theorem writeScalar_content (style : Json.Style) (v : Value) :
    style.writeScalar v.content = style.writeScalar v := by
  cases v <;> rfl

mutual

/-- What is written is the content. -/
theorem writeAt_content (style : Json.Style) : ∀ (level : Nat) (t : Tree String),
    style.writeAt level t.content = style.writeAt level t
  | _, .leaf v => writeScalar_content style v
  | level, .list ts =>
    congrArg (style.writeBlock "[" "]" level) (writeItems_content style (level + 1) ts)
  | level, .map ts =>
    congrArg (style.writeBlock "\x7b" "\x7d" level) (writeMembers_content style (level + 1) ts)

/-- `writeAt_content`, item by item. -/
theorem writeItems_content (style : Json.Style) : ∀ (level : Nat) (ts : List (Tree String)),
    style.writeItems level (mapLeavesList Value.content ts) = style.writeItems level ts
  | _, [] => rfl
  | level, t :: ts => congrArg₂ List.cons (writeAt_content style level t)
    (writeItems_content style level ts)

/-- `writeAt_content`, member by member. -/
theorem writeMembers_content (style : Json.Style) : ∀ (level : Nat)
    (ts : List (String × Tree String)),
    style.writeMembers level (contents ts) = style.writeMembers level ts
  | _, [] => rfl
  | level, (key, t) :: ts => by
    rw [contents, mapLeavesEntries, Json.Style.writeMembers, Json.Style.writeMembers,
      writeMembers_content style level ts]
    exact congrArg (fun s => (style.writeString key ++ style.colon ++ s) :: _)
      (writeAt_content style level t)

end

/-- Trees with one content are written in the same way. -/
theorem write_eq_of_content (style : Json.Style) (h : t.content = u.content) :
    style.write t = style.write u := by
  rw [Json.Style.write, Json.Style.write, ← writeAt_content, h, writeAt_content]

end Tree

end PageMeta
