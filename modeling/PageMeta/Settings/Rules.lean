import PageMeta.Object.Send

/-!
# Rules of settings

What a settings store must look like.  `violations` lists one message per violated rule, in a fixed
order; `validate` reports all of them at once.

The rules ask for the locales and for what stands for two sections, so they also say what happens
when they are checked on something that is no store.
-/

namespace PageMeta.Settings

variable {κ : Type}

/-- Length beyond which a default title is too long. -/
def maxTitle : Nat := 60

/-- Length beyond which a default description is too long. -/
def maxDescription : Nat := 160

/-- What stands for a section of a store. -/
def sectionOf (s : Value) (name : SectionName) : Action κ Value :=
  Action.onHeap (Object.getAttribute s name.name)

/-- The value of a key of what stands for a section of a store. -/
def setting (call : Caller κ) (s : Value) (name : SectionName) (key : String) :
    Action κ Value := do
  let map ← sectionOf s name
  let h := (← get).heap
  match map, h.isMap map with
  | .ref m, true => return AttributeMap.getD h m (.ofText key) .none
  | _, _ => Object.send call map "get" (.of [.ofText key])

/-- A message if a condition holds. -/
def when (condition : Bool) (message : String) : List String := if condition then [message] else []

/-- Violations of the rules on locales. -/
def localeViolations (s : Value) : Action κ (List String) := do
  let locales ← Action.onHeap (Object.getAttribute s "available_locales")
  match (← get).heap.cell? locales with
  | some (.list items) => do
    let locale ← Action.onHeap (Object.getAttribute s "default_locale")
    let known ← Action.look fun h => items.any (h.sameItem · locale)
    return when items.isEmpty "available_locales must be a non-empty list" ++
      when (!known) "default_locale must be included in available_locales"
  | _ => return ["available_locales must be a non-empty list"]

/-- Violations of the rule on the host of a site map. -/
def hostViolations (call : Caller κ) (s : Value) : Action κ (List String) := do
  let on ← setting call s .sitemap "enabled"
  if (← get).heap.truth on then
    let host ← setting call s .sitemap "host"
    return when host.isNone "sitemap.host is required when sitemap is enabled"
  else return []

/-- Whether a value that counts as true is longer than a limit. -/
def exceeds (h : Heap) (v : Value) (limit : Nat) : Except Error Bool :=
  if h.truth v then (h.length v).map fun n => decide (limit < n) else .ok false

/-- Violations of a rule on the length of a default of the meta tags. -/
def lengthViolations (call : Caller κ) (s : Value) (key : String) (limit : Nat) :
    Action κ (List String) := do
  let v ← setting call s .metaTags key
  let long ← Action.ask fun h => exceeds h v limit
  return when long
    ("meta_tags." ++ key ++ " should be max " ++ Decimal.digitsOf limit ++ " characters")

/-- The rules that a store violates, in order. -/
def violations (call : Caller κ) (s : Value) : Action κ (List String) := do
  let locales ← localeViolations s
  let host ← hostViolations call s
  let title ← lengthViolations call s "default_title" maxTitle
  let description ← lengthViolations call s "default_description" maxDescription
  return locales ++ host ++ title ++ description

/-- The logger of settings stores. -/
def logger : String := "seo_builder.config.store"

/-- Checks the rules of a store. -/
def validate (call : Caller κ) (s : Value) : Action κ Value := do
  let broken ← violations call s
  if broken.isEmpty then return .bool true
  else
    Action.record .debug logger
      ("configuration validation failed: " ++ Heap.listText (broken.map Text.quote))
    throw (.violations broken)

/-- Whether the feature of a section is on: its `enabled` is the truth value true itself. -/
def isEnabled (call : Caller κ) (s : Value) (name : SectionName) : Action κ Bool := do
  let on ← setting call s name "enabled"
  return on == .bool true

end PageMeta.Settings
