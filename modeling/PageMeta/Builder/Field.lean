import PageMeta.Value.Basic

/-!
# Declared fields of builders

Each class of builders declares named fields, and each field has a rule that says what its
arguments mean.  Any other name is a dynamic field.
-/

namespace PageMeta

/-- What the arguments of a declared field mean. -/
inductive FieldRule where
  /-- Stores its argument; reads when there is none. -/
  | plain
  /-- Stores the text of its argument with an `@` in front; reads when there is none. -/
  | handle
  /-- Stores its arguments as one flat list; reads when there are none. -/
  | list
  /-- Stores what crawlers may do. -/
  | robots
  /-- Stores its argument, or a preset. -/
  | preset (value : String)
  /-- Runs a block on a builder of articles and stores the result; reads when there is none. -/
  | article
  /-- Stores a value for one platform or for all; reads when there is none. -/
  | app
deriving DecidableEq, Repr

/-- The fields a class of builders declares. -/
def BuilderKind.fields : BuilderKind → List (String × FieldRule)
  | .plain => []
  | .metaTags =>
    [("title", .plain), ("description", .plain), ("keywords", .list), ("author", .plain),
     ("canonical", .plain), ("robots", .robots),
     ("viewport", .preset "width=device-width, initial-scale=1.0"), ("charset", .preset "UTF-8")]
  | .article =>
    [("author", .plain), ("published_time", .plain), ("modified_time", .plain),
     ("expiration_time", .plain), ("section", .plain), ("tag", .list)]
  | .openGraph =>
    [("title", .plain), ("description", .plain), ("type", .plain), ("url", .plain),
     ("image", .plain), ("site_name", .plain), ("locale", .plain), ("locale_alternate", .list),
     ("article", .article), ("video", .plain), ("audio", .plain)]
  | .twitterCards =>
    [("card", .plain), ("site", .handle), ("creator", .handle), ("title", .plain),
     ("description", .plain), ("image", .plain), ("image_alt", .plain), ("player", .plain),
     ("player_width", .plain), ("player_height", .plain), ("player_stream", .plain),
     ("app_name", .app), ("app_id", .app), ("app_url", .app)]

/-- The rule of a declared field. -/
def BuilderKind.field? (kind : BuilderKind) (name : String) : Option FieldRule :=
  (kind.fields.find? (·.1 == name)).map (·.2)

/-- Whether a class of builders has rules of its own for what a finished buffer must look like. -/
def BuilderKind.hasRules : BuilderKind → Bool
  | .plain | .article => false
  | .metaTags | .openGraph | .twitterCards => true

/-- The functions that a class of builders defines beside those of all builders. -/
def BuilderKind.functions (kind : BuilderKind) : List String :=
  kind.fields.map (·.1) ++ (if kind.hasRules then ["validate"] else []) ++
    (if kind = .twitterCards then ["_app_field"] else [])

/-- The platforms that a value without platform is stored for. -/
def appPlatforms : List String := ["iphone", "ipad", "googleplay"]

end PageMeta
