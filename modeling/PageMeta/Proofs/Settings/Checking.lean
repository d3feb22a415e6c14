import PageMeta.Proofs.Judgement
import PageMeta.Proofs.Settings.Store
import PageMeta.Settings.Registry

/-!
# Checking a store

The rules of a store ask for its locales, for what stands for two of its sections, and for the length
of two values.  A store that stands where it was made has an answer to everything but the last: a
value that counts as true need not have a length.

## Key results

- `violations_eq`: the rules that a store violates, as a function of the heap
- `validate_judged`: checking goes wrong exactly where a length is asked for that is not there
-/

namespace PageMeta.Settings

open Heap

variable {h h' : Heap} {c : Cells} {scalar : String → Value} {v : Value} {κ : Type}
  {w : World κ}

/-! ### Finding what is asked for -/

/-- The names of functions of stores that the registry asks for. -/
def askedFunctions : List String := "validate" :: SectionName.features.map SectionName.query

/-- A function of the class of stores is found under its name. -/
theorem lookup_function {name : String} (hc : Layout h c scalar) (hn : name ∈ askedFunctions) :
    Object.lookup h (.ref c.store) name =
      .ok (.method (.ref c.store) .settingsStore name) := by
  have hkept : Object.kept? h c.attributes name = none := by
    rw [Object.kept?, entriesAt_dict hc.attributes]
    simp only [askedFunctions, SectionName.features, List.map_cons, List.map_nil, List.mem_cons,
      List.not_mem_nil, or_false] at hn
    rcases hn with rfl | rfl | rfl | rfl | rfl | rfl | rfl <;> rfl
  have hclass : h.className (.ref c.store) = .settingsStore := by
    simp [className, hc.store, Cell.className]
  -- the names are few, so the tables of the class are looked through for each
  have hnone : ∀ name ∈ askedFunctions, Object.classFunction? .settingsStore name = none ∧
      ClassName.settingsStore.definer? name = some .settingsStore ∧
      SectionName.ofName? name = none ∧
      name ≠ "__class__" ∧ name ≠ "__hash__" ∧ name ≠ "__dict__" := by decide +kernel
  obtain ⟨hplain, hown, hname, hcls, hhash, hdict⟩ := hnone name hn
  simp [Object.lookup, hclass, hplain, hown, Object.cellAttribute, hc.store,
    Object.storeAttribute, hname, Object.firstOf, hkept, Object.onBehalf, hcls, hhash, hdict]

/-- A section is found as an attribute under its name. -/
theorem sectionOf_ok (hc : Equipped w.heap c scalar) (name : SectionName) :
    sectionOf (.ref c.store) name w = .ok (.ref (c.map name)) w := by
  have hname : SectionName.ofName? name.name = some name ∧ name.name ≠ "__class__" ∧
      name.name ≠ "__hash__" := by cases name <;> decide
  have hattribute : Object.storeAttribute w.heap c.attributes name.name
      ((Object.classFunction? .settingsStore name.name).or
        ((ClassName.settingsStore.definer? name.name).map fun owner =>
          .method (.ref c.store) owner name.name)) = .ok (.stored (.ref (c.map name))) := by
    simp only [Object.storeAttribute, hname.1, Object.sectionOf, hc.sections, hc.parts name]
    rfl
  have hclass : w.heap.className (.ref c.store) = .settingsStore := by
    simp [className, hc.store, Cell.className]
  have hlookup : Object.lookup w.heap (.ref c.store) name.name =
      .ok (.stored (.ref (c.map name))) := by
    simp only [Object.lookup, hclass, hname.2.1, hname.2.2, false_and, if_false,
      Object.cellAttribute, hc.store, hattribute, Object.onBehalf]
  simp only [sectionOf, Action.onHeap, Object.getAttribute, bind, EStateM.bind, Name.ofText, ask,
    hlookup]
  rfl

/-- The value that the map of a section has under a key. -/
def settingAt (h : Heap) (c : Cells) (name : SectionName) (key : String) : Value :=
  AttributeMap.getD h (c.map name) (.ofText key) .none

theorem setting_ok (call : Caller κ) (hc : Equipped w.heap c scalar) (name : SectionName)
    (key : String) : setting call (.ref c.store) name key w = .ok (settingAt w.heap c name key) w := by
  simp only [setting, bind, EStateM.bind, sectionOf_ok hc name, run_get, hc.map name]
  rfl

/-- Whether a feature is on is told by the value that its section has under `enabled`. -/
theorem queryFeature_ok (call : Caller κ) (hc : Layout w.heap c scalar) {feature : SectionName}
    (hfeature : feature ∈ SectionName.features) :
    Registry.queryFeature call (.ref c.store) feature w =
      .ok (settingAt w.heap c feature "enabled" == .bool true) w := by
  have hlookup := lookup_function hc
    (List.mem_cons_of_mem "validate" (List.mem_map_of_mem (f := SectionName.query) hfeature))
  simp only [Registry.queryFeature, Action.ask, Action.onHeap, bind, EStateM.bind, ask, hlookup,
    isEnabled, setting_ok call hc.equipped]
  rfl

/-! ### The rules -/

/-- What is wrong with the locales of a store. -/
def localeFaults (h : Heap) (scalar : String → Value) : List String :=
  match h.cell? (scalar "available_locales") with
  | some (.list items) =>
    when items.isEmpty "available_locales must be a non-empty list" ++
      when (!items.any (h.sameItem · (scalar "default_locale")))
        "default_locale must be included in available_locales"
  | _ => ["available_locales must be a non-empty list"]

/-- What is wrong with the site map of a store. -/
def hostFaults (h : Heap) (c : Cells) : List String :=
  when (h.truth (settingAt h c .sitemap "enabled") && (settingAt h c .sitemap "host").isNone)
    "sitemap.host is required when sitemap is enabled"

/-- What is wrong with the length of a default of the meta tags. -/
def lengthFaults (h : Heap) (c : Cells) (key : String) (limit : Nat) :
    Except Error (List String) := do
  let long ← exceeds h (settingAt h c .metaTags key) limit
  return when long
    ("meta_tags." ++ key ++ " should be max " ++ Decimal.digitsOf limit ++ " characters")

/-- What is wrong with a store. -/
def faults (h : Heap) (c : Cells) (scalar : String → Value) : Except Error (List String) := do
  let title ← lengthFaults h c "default_title" maxTitle
  let description ← lengthFaults h c "default_description" maxDescription
  return localeFaults h scalar ++ hostFaults h c ++ title ++ description

/-- The answer to a question that changes nothing. -/
def answer {α : Type} (w : World κ) : Except Error α → EStateM.Result Error (World κ) α
  | .ok a => .ok a w
  | .error e => .error e w

/-- Answers one after the other. -/
theorem answer_bind {α β : Type} {x : Action κ α} {q : Except Error α} {f : α → Action κ β}
    {g : α → Except Error β} (hx : x w = answer w q) (hf : ∀ a, f a w = answer w (g a)) :
    (x >>= f) w = answer w (q >>= g) := by
  simp only [bind, EStateM.bind, hx, Except.bind]
  cases q with
  | ok a => exact hf a
  | error e => rfl

theorem localeViolations_eq (hc : Equipped w.heap c scalar)
    (hmade : ∀ name ∈ scalarNames, (scalar name).isMade = true) :
    localeViolations (.ref c.store) w = .ok (localeFaults w.heap scalar) w := by
  have hattr : ∀ name ∈ scalarNames, Action.onHeap (Object.getAttribute (.ref c.store) name) w =
      .ok (scalar name) w := fun name hn =>
    run_onHeap_ok (hc.getAttribute_scalar hn (hmade name hn))
  rw [localeViolations, run_bind_ok (hattr "available_locales" (by decide)), run_bind_ok run_get,
    localeFaults]
  generalize w.heap.cell? (scalar "available_locales") = cell
  cases cell with
  | none => rfl
  | some cell =>
    cases cell with
    | list items => exact (run_bind_ok (hattr "default_locale" (by decide))).trans rfl
    | _ => rfl

theorem hostViolations_eq (call : Caller κ) (hc : Equipped w.heap c scalar) :
    hostViolations call (.ref c.store) w = .ok (hostFaults w.heap c) w := by
  rw [hostViolations, run_bind_ok (setting_ok call hc _ _), run_bind_ok run_get, hostFaults]
  cases w.heap.truth (settingAt w.heap c .sitemap "enabled") with
  | true => rw [if_pos rfl, run_bind_ok (setting_ok call hc _ _)]; rfl
  | false => rfl

theorem lengthViolations_eq (call : Caller κ) (hc : Equipped w.heap c scalar) (key : String)
    (limit : Nat) : lengthViolations call (.ref c.store) key limit w =
      answer w (lengthFaults w.heap c key limit) := by
  rw [lengthViolations, run_bind_ok (setting_ok call hc _ _)]
  refine answer_bind ?_ fun long => rfl
  simp only [Action.ask, Action.onHeap, ask]
  cases exceeds w.heap (settingAt w.heap c .metaTags key) limit <;> rfl

/-- The rules that a store violates. -/
theorem violations_eq (call : Caller κ) (hc : Equipped w.heap c scalar)
    (hmade : ∀ name ∈ scalarNames, (scalar name).isMade = true) :
    violations call (.ref c.store) w = answer w (faults w.heap c scalar) := by
  rw [violations, run_bind_ok (localeViolations_eq hc hmade),
    run_bind_ok (hostViolations_eq call hc)]
  exact answer_bind (lengthViolations_eq call hc _ _) fun title =>
    answer_bind (lengthViolations_eq call hc _ _) fun description => rfl

/-- The record of a check that found something wrong. -/
def brokenRecord (broken : List String) : LogRecord :=
  ⟨.debug, logger, "configuration validation failed: " ++ listText (broken.map Text.quote)⟩

/-- Checking a store succeeds, or complains about everything that is wrong, or goes wrong. -/
theorem Equipped.validate_eq (call : Caller κ) (hc : Equipped w.heap c scalar)
    (hmade : ∀ name ∈ scalarNames, (scalar name).isMade = true) :
    validate call (.ref c.store) w =
      match faults w.heap c scalar with
      | .ok [] => .ok (.bool true) w
      | .ok broken => .error (.violations broken) { w with log := w.log ++ [brokenRecord broken] }
      | .error e => .error e w := by
  simp only [validate, bind, EStateM.bind, violations_eq call hc hmade]
  cases faults w.heap c scalar with
  | error e => rfl
  | ok broken => cases broken <;> rfl

/-- Checking a store that stands where it was made. -/
theorem validate_eq (call : Caller κ) (hs : w.heap.Sound) (hc : Layout w.heap c scalar) :
    validate call (.ref c.store) w =
      match faults w.heap c scalar with
      | .ok [] => .ok (.bool true) w
      | .ok broken => .error (.violations broken) { w with log := w.log ++ [brokenRecord broken] }
      | .error e => .error e w :=
  hc.equipped.validate_eq call fun _ hn => (fine_scalar hs hc hn).1

/-- A store is checked by its own function. -/
theorem check_eq (call : Caller κ) (hc : Layout w.heap c scalar) :
    Registry.check call (.ref c.store) w = discard (validate call (.ref c.store)) w := by
  have hlookup : Object.lookup w.heap (.ref c.store) "validate" =
      .ok (.method (.ref c.store) .settingsStore "validate") :=
    lookup_function hc List.mem_cons_self
  simp only [Registry.check, Action.ask, Action.onHeap, bind, EStateM.bind, ask, hlookup]

/-- Checking a store comes to one of two ends, unless the length of a default title or description is
asked for in vain. -/
theorem validate_judged (call : Caller κ) (hs : w.heap.Sound) (hc : Layout w.heap c scalar) :
    Judged w.heap [settingAt w.heap c .metaTags "default_title",
        settingAt w.heap c .metaTags "default_description"]
      (validate call (.ref c.store) w) := by
  have hlength : ∀ key limit, Measured w.heap (settingAt w.heap c .metaTags key)
      (lengthFaults w.heap c key limit) := fun key limit => (measured_length _ _).map _
  -- only the two lengths can be asked for in vain; the other rules always have an answer
  have hfound : Found w.heap _ (faults w.heap c scalar) :=
    found_of_measured (hlength "default_title" maxTitle)
      (hlength "default_description" maxDescription) fun title description =>
        localeFaults w.heap scalar ++ hostFaults w.heap c ++ title ++ description
  have heq := validate_eq call hs hc
  generalize faults w.heap c scalar = x at heq hfound
  refine judged_of_found hfound (fun hpass => ⟨w, ?_⟩) (fun broken hbroken hne => ?_)
    fun e he => ⟨w, ?_⟩
  · rw [heq, hpass]
  · cases broken with
    | nil => exact absurd rfl hne
    | cons first rest => rw [heq, hbroken]; exact ⟨_, rfl⟩
  · rw [heq, he]

end PageMeta.Settings
