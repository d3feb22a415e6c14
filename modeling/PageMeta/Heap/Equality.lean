import PageMeta.Heap.Printer

/-!
# Equality, truth and size of values

Equality compares content, not cells: lists with lists, tuples with tuples, mappings with mappings
whatever the order of their entries, and an attribute map with a dictionary that has the same
content.  Records of one schema are equal if their fields are, and their further entries.  Live views
of dictionaries are equal if their content is.  Builders, their fields and stores are equal only to
themselves.
-/

namespace PageMeta.Heap

/-- Whether lists agree item by item. -/
def agree {α : Type} (same : α → α → Bool) : List α → List α → Bool
  | [], [] => true
  | a :: as, b :: bs => same a b && agree same as bs
  | _, _ => false

/-- Whether two mappings have the same keys with the same values; `find` looks a key of the first
up in the second. -/
def agreeEntries {κ : Type} (same : Value → Value → Bool) (find : κ → Option Value) (size : Nat)
    (entries : List (κ × Value)) : Bool :=
  entries.length == size &&
    entries.all fun p =>
      match find p.1 with
      | some w => same p.2 w
      | none => false

/-- The cell at an address, where an attribute map counts as the dictionary of its entries. -/
def contentAt (h : Heap) (r : Ref) : Option Cell :=
  match h.read r with
  | some (.map _) => some (.dict (h.entriesAt r))
  | cell => cell

/-- Equality of what may be missing. -/
def sameOption {α : Type} (same : α → α → Bool) : Option α → Option α → Bool
  | some a, some b => same a b
  | none, none => true
  | _, _ => false

/-- Equality of entries as dictionaries, given that of values. -/
def sameEntries (same : Value → Value → Bool) (ds es : Entries Key Value) : Bool :=
  agreeEntries same (es.get? ·) es.length ds

/-- Equality of two records of a schema in its fields, given that of values. -/
def sameFields (h : Heap) (same : Value → Value → Bool) (schema : String) (r s : Ref) : Bool :=
  (Schema.fieldNames schema).all fun name =>
    let key := Key.ofText name
    sameOption same ((h.entriesAt r).get? key) ((h.entriesAt s).get? key)

/-- Equality of cells, given that of values. -/
def sameCell (h : Heap) (same : Value → Value → Bool) : Cell → Cell → Bool
  | .list xs, .list ys => agree same xs ys
  | .tuple xs, .tuple ys => agree same xs ys
  | .dict ds, .dict es => sameEntries same ds es
  | .record s fs xs _, .record t gs ys _ =>
    s == t && sameOption (fun x y => sameEntries same (h.entriesAt x) (h.entriesAt y)) xs ys &&
      h.sameFields same s fs gs
  | .liveKeys r, .liveKeys s =>
    (h.entriesAt r).length == (h.entriesAt s).length &&
      (h.entriesAt r).all fun p => (h.entriesAt s).has p.1
  | .liveItems r, .liveItems s => sameEntries same (h.entriesAt r) (h.entriesAt s)
  | .liveKeys r, .liveItems s | .liveItems r, .liveKeys s =>
    (h.entriesAt r).isEmpty && (h.entriesAt s).isEmpty
  | _, _ => false

/-- Equality down to `depth` levels; `inside` as for scalars. -/
def sameTo (h : Heap) : Nat → Bool → Value → Value → Bool
  | 0, _, _, _ => false
  | depth + 1, inside, v, w =>
    match v, w with
    | .ref r, .ref s =>
      r == s ||
        match h.contentAt r, h.contentAt s with
        | some c, some d => sameCell h (sameTo h depth true) c d
        | _, _ => false
    | _, _ => v.sameScalar inside w

/-- Equality of two values. -/
def same (h : Heap) (v w : Value) : Bool := h.sameTo h.depth false v w

/-- Equality of two values as parts of a container. -/
def sameItem (h : Heap) (v w : Value) : Bool := h.sameTo h.depth true v w

/-- Number of parts of a cell that has parts. -/
def cellLength? (h : Heap) : Cell → Option Nat
  | .list items | .tuple items => some items.length
  | .dict entries => some entries.length
  | .map (.ref data) => (h.dict? data).map fun p => p.2.length
  | .liveKeys of | .liveValues of | .liveItems of => some (h.entriesAt of).length
  | _ => none

/-- Number of parts of a value: characters, bytes, items or entries. -/
def length (h : Heap) (v : Value) : Except Error Nat :=
  let count := match v with
    | .text s _ => some s.length
    | .feature state => some state.text.length
    | .bytes bs _ => some bs.length
    | .classOf .featureState => some FeatureState.all.length
    | .ref r => (h.read r).bind h.cellLength?
    | _ => none
  match count with
  | some n => .ok n
  | none => .error (.noLength (h.typeName v))

/-- Whether a value counts as true: the absent value, zeros and everything without parts that
could have some count as false. -/
def truth (h : Heap) : Value → Bool
  | .none => false
  | .bool b => b
  | .int n _ => n != 0
  | .real x _ => !x.isZero
  | v =>
    match h.length v with
    | .ok n => n != 0
    | .error _ => true

end PageMeta.Heap
