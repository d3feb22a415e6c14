import PageMeta.Heap.Equality
import PageMeta.Error

/-!
# Order

Which of two values comes first.  Numbers are ordered by size, texts by their characters, bytes by
their numbers, and lists and tuples by their first items that differ.  Nothing else has an order.

* `Relation` names the four relations; `related` decides one of them.
* `sort` sorts a list as far as its items have an order.
-/

namespace PageMeta.Plain

/-- A relation of order. -/
inductive Relation where
  | less
  | atMost
  | greater
  | atLeast
deriving DecidableEq, Repr

namespace Relation

/-- The sign of a relation. -/
def sign : Relation → String
  | .less => "<"
  | .atMost => "<="
  | .greater => ">"
  | .atLeast => ">="

/-- Whether a relation holds between things that compare so. -/
def holds : Relation → Ordering → Bool
  | .less, .lt | .atMost, .lt | .atMost, .eq => true
  | .greater, .gt | .atLeast, .gt | .atLeast, .eq => true
  | _, _ => false

/-- The relation that goes by a name. -/
def named? : String → Option Relation
  | "__lt__" => some .less
  | "__le__" => some .atMost
  | "__gt__" => some .greater
  | "__ge__" => some .atLeast
  | _ => none

end Relation

/-- How two integers compare. -/
def compareInt (m n : Int) : Ordering :=
  if m < n then .lt else if n < m then .gt else .eq

/-- How an integer and a double compare; a not-a-number compares with nothing. -/
def compareReal (n : Int) : Binary64 → Option Ordering
  | .nan => none
  | .infinite negative => some (if negative then .gt else .lt)
  | .finite negative units =>
    some (compareInt (n * Binary64.unitsPerOne) (Binary64.signed negative units))

/-- How two doubles compare. -/
def compareReals : Binary64 → Binary64 → Option Ordering
  | .nan, _ => none
  | .infinite negative, y =>
    match y with
    | .nan => none
    | .infinite other =>
      some (if negative = other then .eq else if negative then .lt else .gt)
    | .finite _ _ => some (if negative then .lt else .gt)
  | .finite negative units, y =>
    match y with
    | .nan => none
    | .infinite other => some (if other then .gt else .lt)
    | .finite other others =>
      some (compareInt (Binary64.signed negative units) (Binary64.signed other others))

/-- How two lists of numbers compare. -/
def compareNumbers : List Nat → List Nat → Ordering
  | [], [] => .eq
  | [], _ :: _ => .lt
  | _ :: _, [] => .gt
  | m :: ms, n :: ns => if m = n then compareNumbers ms ns else compare m n

/-- How two scalars compare: nothing if they have no order, and then whether they are numbers. -/
def compareScalars (v w : Value) : Option (Option Ordering) :=
  match v, w with
  | .real x _, .real y _ => some (compareReals x y)
  | .real x _, _ => w.integer?.map fun n => (compareReal n x).map Ordering.swap
  | _, .real y _ => v.integer?.map fun n => compareReal n y
  | .bytes bs _, .bytes cs _ =>
    some (some (compareNumbers (bs.map UInt8.toNat) (cs.map UInt8.toNat)))
  | _, _ =>
    match v.integer?, w.integer?, v.text?, w.text? with
    | some m, some n, _, _ => some (some (compareInt m n))
    | _, _, some s, some t =>
      some (some (compareNumbers (s.toList.map Char.toNat) (t.toList.map Char.toNat)))
    | _, _, _, _ => none

/-- The first items in which two lists differ, or how their lengths compare. -/
def firstDifference (h : Heap) : List Value → List Value → Sum Ordering (Value × Value)
  | [], [] => .inl .eq
  | [], _ :: _ => .inl .lt
  | _ :: _, [] => .inl .gt
  | v :: vs, w :: ws => if h.sameItem v w then firstDifference h vs ws else .inr (v, w)

/-- The items of two sequences of one kind. -/
def bothItems? (h : Heap) (v w : Value) : Option (List Value × List Value) :=
  match h.cell? v, h.cell? w with
  | some (.list vs), some (.list ws) | some (.tuple vs), some (.tuple ws) => some (vs, ws)
  | _, _ => none

/-- Whether a relation holds between two values, down to `depth` levels. -/
def relatedTo (h : Heap) (relation : Relation) : Nat → Value → Value → Except Error Bool
  | 0, _, _ => .error .tooDeep
  | depth + 1, v, w =>
    match compareScalars v w, bothItems? h v w with
    | some order, _ => .ok (order.any relation.holds)
    | none, some (vs, ws) =>
      match firstDifference h vs ws with
      | .inl order => .ok (relation.holds order)
      | .inr (x, y) => relatedTo h relation depth x y
    | none, none =>
      .error (.plain (.notOrdered relation.sign (h.typeName v) (h.typeName w)))

/-- Whether a relation holds between two values. -/
def related (h : Heap) (relation : Relation) (v w : Value) : Except Error Bool :=
  relatedTo h relation h.depth v w

/-! ## Sorting -/

/-- An item and what it is sorted by. -/
abbrev Keyed := Value × Value

/-- A comparison that went wrong, and the order in which it left the items. -/
structure Interrupted where
  error : Error
  items : List Keyed

/-- Whether an item comes before another one; `items` is the order that is left if they have none. -/
def isBefore (h : Heap) (items : List Keyed) (a b : Keyed) : Except Interrupted Bool :=
  match related h .less a.1 b.1 with
  | .ok less => .ok less
  | .error e => .error ⟨e, items⟩

/-- The length of the run in front in which each item compares with the one before as the second
with the first. -/
def runLength (h : Heap) (items : List Keyed) (isFalling : Bool) :
    Nat → Keyed → List Keyed → Except Interrupted Nat
  | n, _, [] => .ok n
  | n, last, next :: rest => do
    if (← isBefore h items next last) = isFalling then
      runLength h items isFalling (n + 1) next rest
    else return n

/-- Where an item belongs among the items from `low` to `high`, which are in order. -/
def findPlace (h : Heap) (items : List Keyed) (pivot : Keyed) :
    Nat → Nat → Nat → Except Interrupted Nat
  | 0, low, _ => .ok low
  | steps + 1, low, high =>
    if low < high then do
      let middle := low + (high - low) / 2
      match items[middle]? with
      | some other =>
        if ← isBefore h items pivot other then findPlace h items pivot steps low middle
        else findPlace h items pivot steps (middle + 1) high
      | none => return low
    else .ok low

/-- Puts the items from number `n` on, one after the other, where they belong among those before. -/
def insertRest (h : Heap) : Nat → Nat → List Keyed → Except Interrupted (List Keyed)
  | 0, _, items => .ok items
  | steps + 1, n, items =>
    match items[n]? with
    | some pivot => do
      let place ← findPlace h items pivot (n + 1) 0 n
      insertRest h steps (n + 1) ((items.eraseIdx n).insertIdx place pivot)
    | none => .ok items

/-- Sorts items: those that are in order already, or in the reverse order, are taken as a whole, and
the others are put where they belong. -/
def sort (h : Heap) (items : List Keyed) : Except Interrupted (List Keyed) := do
  match items with
  | a :: b :: rest => do
    let isFalling ← isBefore h items b a
    let run ← runLength h items isFalling 2 b rest
    let started :=
      if isFalling then (items.take run).reverse ++ items.drop run else items
    insertRest h items.length run started
  | _ => return items

end PageMeta.Plain
