import PageMeta.Heap.Trees
import PageMeta.Plain.Binding

/-!
# Reading arguments

How functions of plain data read the values they are given: as numbers of items, as bounds, as texts
and as bytes.
-/

namespace PageMeta.Plain

/-- Half the number of integers of 64 bits. -/
def wordHalf : Int := 0x8000000000000000

/-- Complains about a call. -/
def fail {α : Type} (fault : Fault) : Heap.Action α := throw (.plain fault)

/-- The argument at a place. -/
def Places.at? (places : Places) (i : Nat) : Option Value := (places[i]?).join

/-- The argument at a place, where there has to be one. -/
def Places.at (places : Places) (i : Nat) : Value := (places.at? i).getD .none

/-- A value as a number of items. -/
def indexOf (v : Value) : Heap.Action Int := do
  match v.integer? with
  | none => fail (.notIndex ((← get).typeName v))
  | some n => if -wordHalf ≤ n ∧ n < wordHalf then return n else fail .indexTooLarge

/-- The number of items at a place, or a default. -/
def Places.index (places : Places) (i : Nat) (default : Int) : Heap.Action Int :=
  match places.at? i with
  | some v => indexOf v
  | none => pure default

/-- The bound of a slice at a place, or a default; `orAbsent` says whether it can be absent. -/
def Places.bound (places : Places) (i : Nat) (orAbsent : Bool) (default : Int) :
    Heap.Action Int := do
  match places.at? i with
  | none => return default
  | some v =>
    match v.integer? with
    | some n => return max (-wordHalf) (min n (wordHalf - 1))
    | none => if orAbsent && v.isNone then return default else fail (.sliceBound orAbsent)

/-- The two bounds of a search from a place on. -/
def Places.bounds (places : Places) (i : Nat) (orAbsent : Bool) : Heap.Action (Int × Int) := do
  let start ← places.bound i orAbsent 0
  let stop ← places.bound (i + 1) orAbsent (wordHalf - 1)
  return (start, stop)

/-- A value as text; `subject` and `expected` word the complaint. -/
def textFor (subject expected : String) (v : Value) : Heap.Action (List Char) := do
  match v.text? with
  | some s => return s.toList
  | none => fail (.wrongType subject expected ((← get).typeName v))

/-- A value as bytes; `subject` and `expected` word the complaint. -/
def bytesFor (subject expected : String) (v : Value) : Heap.Action (List UInt8) := do
  match v with
  | .bytes bs _ => return bs
  | _ => fail (.wrongType subject expected ((← get).typeName v))

/-- A text made of characters. -/
def made (chars : List Char) : Value := .newText (String.ofList chars)

/-- A part of a text: the text itself if it is all of it. -/
def partOf (whole : Value) (chars : List Char) : Value :=
  match whole, chars with
  | .text s _, _ =>
    if s.toList = chars then whole
    else
      match chars with
      | [c] => .ofChar c
      | _ => made chars
  | _, [c] => .ofChar c
  | _, _ => made chars

/-- Makes a list of scalars. -/
def newScalars (values : List Value) : Heap.Action Value := do
  Heap.newList (← Heap.settleAll values)

/-- Makes a tuple of scalars. -/
def newScalarTuple (values : List Value) : Heap.Action Value := do
  Heap.newTuple (← Heap.settleAll values)

end PageMeta.Plain
