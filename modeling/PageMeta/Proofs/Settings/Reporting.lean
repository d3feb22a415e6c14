import PageMeta.Proofs.Settings.RoundTrip
import PageMeta.Proofs.Settings.Checking

/-!
# What is reported about a store

A store has five rules.  Each of them is said here in words of its own: when it is broken, and what is
complained about then.  The first two both look at the locales, but they are broken independently: no
list at all breaks only the first, an empty list breaks both.

Checking a store in which lengths can be told reports the broken rules, all of them and no others, in
the order of `Rule.all`, and leaves the heap as it is.

## Key results

- `Rule.Broken`: when a rule is broken
- `faults_eq_complaints`: what is wrong with a store is what is complained about the broken rules
- `validate_reports`: what checking reports
-/

namespace PageMeta.Settings

open Heap

variable {h : Heap} {c : Cells} {scalar : String → Value} {κ : Type} {w : World κ}

/-- The rules of a store, in the order in which they are checked. -/
inductive Rule where
  /-- There are locales. -/
  | locales
  /-- The default locale is among the locales. -/
  | defaultLocale
  /-- A site map that is on has a host. -/
  | host
  /-- The default title is no longer than 60. -/
  | title
  /-- The default description is no longer than 160. -/
  | description
deriving DecidableEq, Repr

namespace Rule

def all : List Rule := [locales, defaultLocale, host, title, description]

/-- What is complained about a broken rule. -/
def complaint : Rule → String
  | locales => "available_locales must be a non-empty list"
  | defaultLocale => "default_locale must be included in available_locales"
  | host => "sitemap.host is required when sitemap is enabled"
  | title => "meta_tags.default_title should be max 60 characters"
  | description => "meta_tags.default_description should be max 160 characters"

/-- What the map of a section has under a name, if it has anything there. -/
def found? (h : Heap) (c : Cells) (name : SectionName) (key : String) : Option Value :=
  (h.entriesAt (c.map name)).get? (Key.ofText key)

/-- When a rule is broken.  A site map whose host is the absent value has no host. -/
def Broken (h : Heap) (c : Cells) (scalar : String → Value) : Rule → Prop
  | locales => ∀ items, h.cell? (scalar "available_locales") = some (.list items) → items = []
  | defaultLocale => ∃ items, h.cell? (scalar "available_locales") = some (.list items) ∧
      ∀ item ∈ items, h.sameItem item (scalar "default_locale") = false
  | host => (∃ on, found? h c .sitemap "enabled" = some on ∧ h.truth on = true) ∧
      ∀ host, found? h c .sitemap "host" = some host → host = .none
  | title => ∃ text, found? h c .metaTags "default_title" = some text ∧ h.TooLong text 60
  | description =>
    ∃ text, found? h c .metaTags "default_description" = some text ∧ h.TooLong text 160

/-! ### Broken rules are found -/

theorem settingAt_eq (name : SectionName) (key : String) :
    settingAt h c name key = (found? h c name key).getD .none := rfl

theorem broken_locales_iff : Broken h c scalar locales ↔
    (match h.cell? (scalar "available_locales") with
      | some (.list items) => items.isEmpty
      | _ => true) = true := by
  simp only [Broken]
  split
  · rename_i items hcell
    simp [hcell]
  · rename_i hcell
    simp only [iff_true]
    intro items hlist
    exact absurd hlist (hcell items)

theorem broken_defaultLocale_iff : Broken h c scalar defaultLocale ↔
    (match h.cell? (scalar "available_locales") with
      | some (.list items) => !items.any (h.sameItem · (scalar "default_locale"))
      | _ => false) = true := by
  simp only [Broken]
  split
  · rename_i items hcell
    simp [hcell]
  · rename_i hcell
    simp only [Bool.false_eq_true, iff_false]
    rintro ⟨items, hlist, -⟩
    exact hcell items hlist

theorem broken_host_iff : Broken h c scalar host ↔
    (h.truth (settingAt h c .sitemap "enabled") &&
      (settingAt h c .sitemap "host").isNone) = true := by
  simp only [Broken, Bool.and_eq_true, settingAt_eq, Value.isNone_getD]
  refine and_congr ?_ Iff.rfl
  cases found? h c .sitemap "enabled" <;> simp [truth]

instance (h : Heap) (c : Cells) (scalar : String → Value) : DecidablePred (Broken h c scalar)
  | .locales => decidable_of_iff (_ = true) broken_locales_iff.symm
  | .defaultLocale => decidable_of_iff (_ = true) broken_defaultLocale_iff.symm
  | .host => decidable_of_iff (_ = true) broken_host_iff.symm
  | .title => decidable_of_iff _ tooLong_getD
  | .description => decidable_of_iff _ tooLong_getD

/-- The complaints about the rules that a store breaks, in order. -/
def complaints (h : Heap) (c : Cells) (scalar : String → Value) : List String :=
  (all.filter (Broken h c scalar ·)).map complaint

theorem complaints_eq_nil : complaints h c scalar = [] ↔ ∀ rule, ¬ Broken h c scalar rule := by
  have hall : ∀ rule, rule ∈ all := fun rule => by cases rule <;> decide
  simp [complaints, List.filter_eq_nil_iff, hall]

end Rule

open Rule

/-- The two rules on the locales are checked together. -/
theorem localeFaults_eq_complaints (c : Cells) : localeFaults h scalar =
    when (Broken h c scalar .locales) Rule.locales.complaint ++
      when (Broken h c scalar .defaultLocale) Rule.defaultLocale.complaint := by
  simp only [broken_locales_iff, broken_defaultLocale_iff, Bool.decide_eq_true, localeFaults]
  cases h.cell? (scalar "available_locales") with
  | none => rfl
  | some cell => cases cell <;> rfl

theorem hostFaults_eq_complaints (scalar : String → Value) :
    hostFaults h c = when (Broken h c scalar .host) Rule.host.complaint := by
  simp only [broken_host_iff, Bool.decide_eq_true]
  rfl

theorem lengthFaults_eq_complaints {key : String} (limit : Nat)
    (hm : h.Measurable (settingAt h c .metaTags key)) : lengthFaults h c key limit =
      .ok (when (h.TooLong (settingAt h c .metaTags key) limit)
        ("meta_tags." ++ key ++ " should be max " ++ Decimal.digitsOf limit ++ " characters")) := by
  rw [lengthFaults, hm.exceeds_eq limit]
  rfl

/-- What is wrong with a store in which lengths can be told. -/
theorem faults_eq_complaints (htitle : h.Measurable (settingAt h c .metaTags "default_title"))
    (hdescription : h.Measurable (settingAt h c .metaTags "default_description")) :
    faults h c scalar = .ok (complaints h c scalar) := by
  have htext : "meta_tags." ++ "default_title" ++ " should be max " ++
      Decimal.digitsOf maxTitle ++ " characters" = Rule.title.complaint := by decide +kernel
  have htext' : "meta_tags." ++ "default_description" ++ " should be max " ++
      Decimal.digitsOf maxDescription ++ " characters" = Rule.description.complaint := by
    decide +kernel
  have hlong : decide (h.TooLong (settingAt h c .metaTags "default_title") maxTitle) =
      decide (Broken h c scalar .title) := decide_eq_decide.mpr tooLong_getD
  have hlong' : decide (h.TooLong (settingAt h c .metaTags "default_description") maxDescription) =
      decide (Broken h c scalar .description) := decide_eq_decide.mpr tooLong_getD
  rw [faults, lengthFaults_eq_complaints _ htitle, lengthFaults_eq_complaints _ hdescription,
    localeFaults_eq_complaints c, hostFaults_eq_complaints scalar, htext, htext', hlong, hlong',
    complaints, ← flatMap_when]
  simp only [Rule.all, List.flatMap_cons, List.flatMap_nil, List.append_nil, bind, Except.bind,
    pure, Except.pure, List.append_assoc]

/-- Checking a store reports exactly the rules that are broken.  The two defaults whose lengths are
asked for may be any values that count as false or have a length. -/
theorem validate_reports (call : Caller κ) (hc : Equipped w.heap c scalar)
    (hmade : ∀ name ∈ scalarNames, (scalar name).isMade = true)
    (htitle : w.heap.Measurable (settingAt w.heap c .metaTags "default_title"))
    (hdescription : w.heap.Measurable (settingAt w.heap c .metaTags "default_description")) :
    (validate call (.ref c.store) w = .ok (.bool true) w ↔
      ∀ rule, ¬ Rule.Broken w.heap c scalar rule) ∧
    ((∃ rule, Rule.Broken w.heap c scalar rule) → ∃ e record,
      validate call (.ref c.store) w = .error e { w with log := w.log ++ [record] } ∧
      e.kind = "ValidationError" ∧
      e.message = ", ".intercalate
        ((Rule.all.filter (Rule.Broken w.heap c scalar ·)).map Rule.complaint)) := by
  have hrun := hc.validate_eq call hmade
  rw [faults_eq_complaints htitle hdescription] at hrun
  cases hcomplaints : complaints w.heap c scalar with
  | nil =>
    have hnone := complaints_eq_nil.mp hcomplaints
    rw [hcomplaints] at hrun
    refine ⟨⟨fun _ => hnone, fun _ => hrun⟩, fun ⟨rule, hbroken⟩ => ?_⟩
    exact absurd hbroken (hnone rule)
  | cons first rest =>
    -- something is broken, so checking does not pass
    have hsome : ¬ ∀ rule, ¬ Broken w.heap c scalar rule := fun hnone => by
      rw [complaints_eq_nil.mpr hnone] at hcomplaints
      cases hcomplaints
    have hcomplained : validate call (.ref c.store) w = .error (.violations (first :: rest))
        { w with log := w.log ++ [brokenRecord (first :: rest)] } := by
      rw [hrun, hcomplaints]
    refine ⟨⟨fun hpass => ?_, fun hnone => absurd hnone hsome⟩, fun _ => ?_⟩
    · rw [hpass] at hcomplained
      cases hcomplained
    · refine ⟨_, _, hcomplained, Error.kind_violations _, ?_⟩
      rw [Error.message_violations, ← hcomplaints, complaints]

/-! ### A store that breaks four rules at once -/

section Spoiled

/-- The scalars of the store: its locales are an empty list. -/
def spoiledScalar (name : String) : Value :=
  if name = "default_locale" then .ofText "en"
  else if name = "available_locales" then .ref ⟨0⟩
  else .none

/-- What all sections of the store have: they are on, without a host, and with a title of 61
characters. -/
def spoiledSection : Entries Key Value := textKeys
  [("enabled", .bool true), ("default_title", .ofText (String.ofList (List.replicate 61 'a')))]

/-- Where the parts of the store are: all its sections are one map. -/
def spoiledCells : Cells := ⟨⟨5⟩, ⟨4⟩, ⟨3⟩, fun _ => ⟨2⟩⟩

/-- The world with the store in it. -/
def spoiledWorld : World Unit := newWorld {
  cells := #[.list [], .dict spoiledSection, .map (.ref ⟨1⟩),
    .dict (sectionEntries spoiledCells.map),
    .dict (attributeEntries spoiledScalar spoiledCells.sections), .store spoiledCells.attributes]
  made := 0 }

theorem equipped_spoiledWorld : Equipped spoiledWorld.heap spoiledCells spoiledScalar where
  store := rfl
  scalars name hn := by
    simp only [scalarNames, List.mem_cons, List.not_mem_nil, or_false] at hn
    rcases hn with rfl | rfl | rfl <;> rfl
  sections := rfl
  parts name := by cases name <;> rfl
  map name := rfl

theorem validate_reports_spoiled : ∃ e record,
    validate (fun _ _ => throw .tooDeep) (.ref ⟨5⟩) spoiledWorld =
      .error e { spoiledWorld with log := [record] } ∧
    e.kind = "ValidationError" ∧
    e.message = "available_locales must be a non-empty list, " ++
      "default_locale must be included in available_locales, " ++
      "sitemap.host is required when sitemap is enabled, " ++
      "meta_tags.default_title should be max 60 characters" := by
  have hmade : ∀ name ∈ scalarNames, (spoiledScalar name).isMade = true := by decide
  have htitle : spoiledWorld.heap.Measurable
      (settingAt spoiledWorld.heap spoiledCells .metaTags "default_title") := .inr ⟨61, rfl⟩
  have hdescription : spoiledWorld.heap.Measurable
      (settingAt spoiledWorld.heap spoiledCells .metaTags "default_description") := .inl rfl
  have hbroken : Rule.all.filter (Rule.Broken spoiledWorld.heap spoiledCells spoiledScalar ·) =
      [.locales, .defaultLocale, .host, .title] := rfl
  have hlocales : Rule.Broken spoiledWorld.heap spoiledCells spoiledScalar .locales := by
    decide
  have hreports := (validate_reports (fun _ _ => throw .tooDeep) equipped_spoiledWorld hmade htitle
    hdescription).2 ⟨_, hlocales⟩
  rw [hbroken] at hreports
  obtain ⟨e, record, hrun, hkind, hmessage⟩ := hreports
  exact ⟨e, record, hrun, hkind, hmessage⟩

end Spoiled

end PageMeta.Settings
