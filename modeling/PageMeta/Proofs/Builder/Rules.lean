import PageMeta.Proofs.Builder.Standing
import PageMeta.Proofs.Heap.Measures
import PageMeta.Proofs.Heap.Written
import PageMeta.Builder.Rules

/-!
# Rules on what a buffer shows

What is wrong with a builder that holds plain data can be told from what its buffer shows, the texts
of the complaints included.

## Key results

- `faults`: what is wrong with plain data as the buffer of a class of builders
- `violations_eq`: it is what is wrong with a builder whose buffer shows the data
-/

namespace PageMeta

namespace Tree

/-- The text of plain data that are one. -/
def text? : Tree String → Option String
  | .leaf v => v.text?
  | _ => none

end Tree

namespace Heap

variable {h : Heap} {view : View} {within : Ref → Prop} {t : Tree String} {v : Value}

theorem Reads.text?_eq (hr : h.Reads view within t v) : v.text? = t.text? := by
  cases t with
  | leaf x => rw [hr.1, Tree.text?]
  | list ts =>
    obtain ⟨items, hi, -⟩ := hr
    obtain ⟨r, rfl, -⟩ := ref_of_items? hi
    rfl
  | map ts =>
    obtain ⟨entries, he, -⟩ := hr
    obtain ⟨r, rfl, -⟩ := ref_of_entries? he
    rfl

end Heap

namespace Builder

open Settings (when)

/-! ### Faults of plain data -/

/-- What is wrong with the length of what counts as true. -/
def lengthFaults (label : String) (t : Tree String) (limit : Nat) : Except Error (List String) :=
  if t.truth then do
    let n ← t.length
    return when (limit < n) (label ++ " too long (" ++ Decimal.digitsOf n ++ " chars, max " ++
      Decimal.digitsOf limit ++ " recommended)")
  else .ok []

/-- What is wrong with meta tags. -/
def metaTagsFaults (t : Tree String) : Except Error (List String) := do
  let title ← lengthFaults "Title" (t.under "title") maxTitle
  let description ← lengthFaults "Description" (t.under "description") maxDescription
  return title ++ description

/-- What is wrong with the data of Open Graph. -/
def openGraphFaults (t : Tree String) : List String :=
  (requiredFields.filter fun name => (t.under name).isAbsent).map fun name =>
    "og:" ++ name ++ " is required"

/-- What is wrong with the data of a card. -/
def twitterCardsFaults (t : Tree String) : Except Error (List String) := do
  let card := t.under "card"
  let required :=
    when (!card.isAbsent && !card.text?.any cardTypes.contains)
      ("Invalid card type: " ++ card.display ++ ". Valid types: " ++
        String.intercalate ", " cardTypes) ++
    when (t.under "title").isAbsent "twitter:title is required" ++
    when (t.under "description").isAbsent "twitter:description is required" ++
    when (card.text? == some "summary_large_image" && (t.under "image").isAbsent)
      "twitter:image is required for summary_large_image card"
  let longTitle ← lengthFaults "Title" (t.under "title") maxCardTitle
  let longDescription ← lengthFaults "Description" (t.under "description") maxCardDescription
  return required ++ longTitle ++ longDescription

/-- What is wrong with plain data as the buffer of a class of builders. -/
def faults (kind : BuilderKind) (t : Tree String) : Except Error (List String) :=
  match kind with
  | .plain | .article => .ok []
  | .metaTags => metaTagsFaults t
  | .openGraph => .ok (openGraphFaults t)
  | .twitterCards => twitterCardsFaults t

/-- Nothing but the four required fields is asked for by Open Graph. -/
example : faults .openGraph (.map [("title", .leaf .none), ("url", .leaf (.ofText "u"))]) =
    .ok ["og:title is required", "og:type is required", "og:image is required"] := rfl

/-! ### Faults of a buffer -/

variable {h : Heap} {kind : BuilderKind} {c : Cells} {within : Ref → Prop}
  {t : Tree String} {v : Value}

/-- Checking a builder reports what is wrong with it, and leaves everything as it is. -/
theorem validate_run (kind : BuilderKind) (b : Value) (h : Heap) : validate kind b h =
    match violations h b kind with
    | .ok broken => if broken.isEmpty then .ok (.bool true) h else .error (.violations broken) h
    | .error e => .error e h := by
  simp only [validate, bind, EStateM.bind, Heap.ask]
  cases violations h b kind with
  | ok broken => cases broken <;> rfl
  | error e => rfl

theorem lengthViolation_eq (hr : h.Reads .plain within t v) (hp : t.isPlain = true)
    (label : String) (limit : Nat) :
    lengthViolation h label v limit = lengthFaults label t limit := by
  rw [lengthViolation, lengthFaults, hr.truth_eq (by decide) hp, hr.length_eq (by decide) hp]

/-- The fields that are missing are those under which nothing is stored. -/
theorem missingFields_ok (hp : Placed h kind c) : ∀ names,
    missingFields h (.ref c.builder) names =
      .ok (names.filter fun name => (stored h c (Key.ofText name)).isNone)
  | [] => rfl
  | name :: rest => by
    rw [missingFields, field, fieldAt_ok hp, missingFields_ok hp rest]
    simp only [bind, Except.bind, List.filter_cons]
    rfl

section Buffer

variable (hs : Standing h kind c) (hr : h.Reads .plain within t (.ref c.buffer))
  (hp : t.isPlain = true)

include hs hr hp

/-- What is stored under a name is what the buffer shows under it. -/
theorem stored_reads (name : String) :
    h.Reads .plain within (t.under name) (stored h c (Key.ofText name)) := by
  cases t with
  | leaf u =>
    obtain ⟨rfl, -⟩ := hr
    cases hp
  | list ts =>
    obtain ⟨entries, hb, -⟩ := hs.buffer
    obtain ⟨items, hi, -⟩ := hr
    rw [Heap.read_of_items? (by decide) hi] at hb
    cases hb
  | map ts => exact hr.getD (by decide) name

theorem lengthViolation_field (label name : String) (limit : Nat) :
    lengthViolation h label (stored h c (Key.ofText name)) limit =
      lengthFaults label (t.under name) limit :=
  lengthViolation_eq (stored_reads hs hr hp name) (Tree.isPlain_under hp name) label limit

theorem missingFields_eq (names : List String) : missingFields h (.ref c.builder) names =
    .ok (names.filter fun name => (t.under name).isAbsent) := by
  rw [missingFields_ok hs.placed]
  exact congrArg _ (List.filter_congr fun name _ => (stored_reads hs hr hp name).isNone_eq)

/-- What is wrong with a builder is what is wrong with the data that its buffer shows. -/
theorem violations_eq (hw : ∀ r, within r → h.TextKeyed r) :
    violations h (.ref c.builder) kind = faults kind t := by
  have hlength := fun label name limit => lengthViolation_field hs hr hp label name limit
  cases kind with
  | plain | article => rfl
  | metaTags =>
    simp only [violations, metaTagsViolations, field, fieldAt_ok hs.placed, faults, metaTagsFaults,
      ← hlength]
    rfl
  | openGraph =>
    simp only [violations, openGraphViolations, missingFields_eq hs hr hp]
    rfl
  | twitterCards =>
    have habsent := fun name => (stored_reads hs hr hp name).isNone_eq
    -- the complaint about the kind of card quotes what is stored
    have hcard := stored_reads hs hr hp "card"
    have hdisplay := hcard.display_eq hw (Tree.isPlain_under hp _)
    have hfound : ∀ (v : Value) (f : Value → Except Error (List String)),
        (Except.ok v >>= f) = f v := fun _ _ => rfl
    simp only [violations, twitterCardsViolations, field, fieldAt_ok hs.placed, hfound, faults,
      twitterCardsFaults, ← hlength, isCardType, hcard.text?_eq, habsent, hdisplay]

end Buffer

end Builder

end PageMeta
