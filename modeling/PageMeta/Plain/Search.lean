/-!
# Searching sequences

Finding, counting, splitting and replacing parts of sequences, whatever their items are.  A search
looks at the items between two bounds; a negative bound counts from the end.

* `findPart?` and `findLast?` find a part, `countParts` counts it without overlaps.
* `splitAt` and `splitAtLast` cut at a separator, `replaceParts` replaces a part.
* `splitRuns` and `splitLastRuns` cut at runs of items of a kind.
-/

namespace PageMeta.Plain

variable {α : Type}

/-- A bound of a sequence of `size` items, counted from the front and brought into it. -/
def boundIn (size : Nat) (bound : Int) : Nat :=
  if bound < 0 then (bound + size).toNat else min bound.toNat size

/-- The items of a sequence between two bounds. -/
def between (items : List α) (start stop : Nat) : List α := (items.take stop).drop start

variable [BEq α]

/-- Where a part occurs first. -/
def findFirst? (part : List α) : List α → Option Nat
  | [] => if part.isEmpty then some 0 else none
  | x :: rest =>
    if part.isPrefixOf (x :: rest) then some 0 else (findFirst? part rest).map (· + 1)

/-- A part found is within the sequence. -/
theorem findFirst?_le {part items : List α} {n : Nat} (h : findFirst? part items = some n) :
    n ≤ items.length := by
  induction items generalizing n with
  | nil =>
    simp only [findFirst?] at h
    split at h
    · simp_all
    · cases h
  | cons x rest ih =>
    simp only [findFirst?] at h
    split at h
    · injection h with h
      omega
    · obtain ⟨m, hm, rfl⟩ := Option.map_eq_some_iff.1 h
      have := ih hm
      simp only [List.length_cons]
      omega

/-- Where a part occurs first between two bounds. -/
def findPart? (part items : List α) (start stop : Int) : Option Nat :=
  let low := boundIn items.length start
  let high := boundIn items.length stop
  if start ≤ items.length ∧ low ≤ high then
    (findFirst? part (between items low high)).map (· + low)
  else none

/-- Where a part occurs last between two bounds. -/
def findLast? (part items : List α) (start stop : Int) : Option Nat :=
  let low := boundIn items.length start
  let high := boundIn items.length stop
  if start ≤ items.length ∧ low ≤ high then
    (findFirst? part.reverse (between items low high).reverse).map fun n =>
      high - n - part.length
  else none

/-- How often a part that is not empty occurs, in at most `steps` steps. -/
def countFrom (part : List α) : Nat → List α → Nat
  | 0, _ => 0
  | steps + 1, items =>
    match findFirst? part items with
    | some n => countFrom part steps (items.drop (n + part.length)) + 1
    | none => 0

/-- How often a part occurs between two bounds, without overlaps. -/
def countParts (part items : List α) (start stop : Int) : Nat :=
  let low := boundIn items.length start
  let high := boundIn items.length stop
  if start ≤ items.length ∧ low ≤ high then
    let searched := between items low high
    if part.isEmpty then searched.length + 1 else countFrom part (searched.length + 1) searched
  else 0

/-- Cuts a sequence at a separator that is not empty, at most `cuts` times. -/
def splitAt (separator : List α) : Nat → List α → List (List α)
  | 0, items => [items]
  | cuts + 1, items =>
    match findFirst? separator items with
    | some n => items.take n :: splitAt separator cuts (items.drop (n + separator.length))
    | none => [items]

/-- Cuts a sequence at a separator that is not empty, at most `cuts` times, from the end. -/
def splitAtLast (separator : List α) (cuts : Nat) (items : List α) : List (List α) :=
  ((splitAt separator.reverse cuts items.reverse).map List.reverse).reverse

omit [BEq α] in
/-- Cuts a sequence at runs of items of a kind, at most `cuts` times, and drops a run in front; a run
at the end stays if there are no cuts left for it. -/
def splitRuns (isGap : α → Bool) : Nat → Nat → List α → List (List α)
  | 0, _, _ => []
  | steps + 1, cuts, items =>
    match items.dropWhile isGap, cuts with
    | [], _ => []
    | rest, 0 => [rest]
    | rest, cuts + 1 =>
      let word := rest.takeWhile (! isGap ·)
      word :: splitRuns isGap steps cuts (rest.drop word.length)

omit [BEq α] in
/-- Cuts a sequence at runs of items of a kind, at most `cuts` times, from the end. -/
def splitLastRuns (isGap : α → Bool) (steps cuts : Nat) (items : List α) : List (List α) :=
  ((splitRuns isGap steps cuts items.reverse).map List.reverse).reverse

/-- Replaces a part that is not empty, at most `times` times. -/
def replaceParts (old new : List α) (times : Nat) (items : List α) : List α :=
  new.intercalate (splitAt old times items)

omit [BEq α] in
/-- Puts a part in front of each item, and at the end, at most `times` times. -/
def interleave (new : List α) : Nat → List α → List α
  | 0, items => items
  | _ + 1, [] => new
  | times + 1, x :: rest => new ++ x :: interleave new times rest

/-- A part is cut out wherever it occurs. -/
example : splitAt [0] 9 [1, 0, 2, 0] = [[1], [2], []] := by decide

end PageMeta.Plain
