import PageMeta.Builder.Basic
import PageMeta.Settings.Rules

/-!
# Rules of builders

What a finished buffer must look like.  `violations` lists one message per violated rule, in a
fixed order for each class of builders.
-/

namespace PageMeta.Builder

open Settings (when)

/-- Length beyond which a title of meta tags is too long. -/
def maxTitle : Nat := 60

/-- Length beyond which a description of meta tags is too long. -/
def maxDescription : Nat := 160

/-- Length beyond which a title of a card is too long. -/
def maxCardTitle : Nat := 70

/-- Length beyond which a description of a card is too long. -/
def maxCardDescription : Nat := 200

/-- The types of cards. -/
def cardTypes : List String := ["summary", "summary_large_image", "app", "player"]

/-- The fields that Open Graph requires. -/
def requiredFields : List String := ["title", "type", "image", "url"]

/-- The complaint about a value that counts as true and is longer than a limit. -/
def lengthViolation (h : Heap) (label : String) (v : Value) (limit : Nat) :
    Except Error (List String) :=
  if h.truth v then do
    let n ← h.length v
    return when (limit < n) (label ++ " too long (" ++ Decimal.digitsOf n ++ " chars, max " ++
      Decimal.digitsOf limit ++ " recommended)")
  else .ok []

/-- Violations of meta tags. -/
def metaTagsViolations (h : Heap) (b : Value) : Except Error (List String) := do
  let title ← lengthViolation h "Title" (← field h b "title") maxTitle
  let description ← lengthViolation h "Description" (← field h b "description") maxDescription
  return title ++ description

/-- The fields that Open Graph requires and a builder lacks. -/
def missingFields (h : Heap) (b : Value) : List String → Except Error (List String)
  | [] => .ok []
  | name :: rest => do
    let v ← field h b name
    let others ← missingFields h b rest
    return if v.isNone then name :: others else others

/-- Violations of Open Graph. -/
def openGraphViolations (h : Heap) (b : Value) : Except Error (List String) := do
  return (← missingFields h b requiredFields).map fun name => "og:" ++ name ++ " is required"

/-- Whether a value is one of the types of cards. -/
def isCardType (v : Value) : Bool := v.text?.any cardTypes.contains

/-- Violations of Twitter Cards. -/
def twitterCardsViolations (h : Heap) (b : Value) : Except Error (List String) := do
  let card ← field h b "card"
  let title ← field h b "title"
  let description ← field h b "description"
  let image ← field h b "image"
  let required :=
    when (!card.isNone && !isCardType card)
      ("Invalid card type: " ++ h.display card ++ ". Valid types: " ++
        String.intercalate ", " cardTypes) ++
    when title.isNone "twitter:title is required" ++
    when description.isNone "twitter:description is required" ++
    when (card.text? == some "summary_large_image" && image.isNone)
      "twitter:image is required for summary_large_image card"
  let longTitle ← lengthViolation h "Title" title maxCardTitle
  let longDescription ← lengthViolation h "Description" description maxCardDescription
  return required ++ longTitle ++ longDescription

/-- The rules of a class of builders that a buffer violates, in order. -/
def violations (h : Heap) (b : Value) : BuilderKind → Except Error (List String)
  | .plain | .article => .ok []
  | .metaTags => metaTagsViolations h b
  | .openGraph => openGraphViolations h b
  | .twitterCards => twitterCardsViolations h b

/-- Checks the rules of a class of builders. -/
def validate (kind : BuilderKind) (b : Value) : Heap.Action Value := do
  let broken ← Heap.ask fun h => violations h b kind
  if broken.isEmpty then return .bool true else throw (.violations broken)

end PageMeta.Builder
