import PageMeta.Schema.Basic

/-!
# Payload schemas

What renderers rely on in the result of a builder.  These schemas are about types only, keep every
entry they have no field for, and leave rules on lengths to the builders.
-/

namespace PageMeta.Schema

/-- An optional text field. -/
def optionalText (name : String) : SchemaField :=
  .mk name (.optional (.text 0)) (.value (.leaf .none))

/-- A text field that must be given and not be empty. -/
def requiredText (name : String) : SchemaField := .mk name (.text 1) .required

/-- An optional list of texts. -/
def optionalTexts (name : String) : SchemaField :=
  .mk name (.optional .texts) (.value (.leaf .none))

/-- An optional text or dictionary. -/
def optionalMedia (name : String) : SchemaField :=
  .mk name (.optional .textOrMapping) (.value (.leaf .none))

/-- An optional integer. -/
def optionalInteger (name : String) : SchemaField :=
  .mk name (.optional (.integer none none)) (.value (.leaf .none))

/-- An optional dictionary. -/
def optionalMapping (name : String) : SchemaField :=
  .mk name (.optional (.mapping .anything)) (.value (.leaf .none))

/-- An optional record. -/
def optionalRecord (name : String) (schema : RecordSchema) : SchemaField :=
  .mk name (.optional (.record schema)) (.value (.leaf .none))

/-- A truth value that is true by default. -/
def flagOn (name : String) : SchemaField := .mk name .flag (.value (.leaf (.bool true)))

/-- What crawlers may do with a page. -/
def robotsDirective : RecordSchema :=
  .mk "RobotsDirective" [flagOn "index", flagOn "follow"] true

/-- The result of a builder of meta tags. -/
def metaTagsPayload : RecordSchema :=
  .mk "MetaTagsPayload"
    [optionalText "title", optionalText "description", optionalTexts "keywords",
     optionalText "author", optionalText "canonical", optionalRecord "robots" robotsDirective,
     optionalText "viewport", optionalText "charset"] true

/-- The result of a builder of articles. -/
def articlePayload : RecordSchema :=
  .mk "ArticlePayload"
    [optionalText "author", optionalText "published_time", optionalText "modified_time",
     optionalText "expiration_time", optionalText "section", optionalTexts "tag"] true

/-- The result of an Open Graph builder. -/
def openGraphPayload : RecordSchema :=
  .mk "OpenGraphPayload"
    [requiredText "title", optionalText "description", requiredText "type", requiredText "url",
     .mk "image" .textOrMapping .required, optionalText "site_name", optionalText "locale",
     optionalTexts "locale_alternate", optionalRecord "article" articlePayload,
     optionalMedia "video", optionalMedia "audio"] true

/-- The result of a Twitter Cards builder. -/
def twitterCardsPayload : RecordSchema :=
  .mk "TwitterCardsPayload"
    [optionalText "card", optionalText "site", optionalText "creator", requiredText "title",
     requiredText "description", optionalMedia "image", optionalText "image_alt",
     optionalText "player", optionalInteger "player_width", optionalInteger "player_height",
     optionalText "player_stream", optionalMapping "app_name", optionalMapping "app_id",
     optionalMapping "app_url"] true

/-- All payload schemas. -/
def payloads : List RecordSchema :=
  [robotsDirective, metaTagsPayload, articlePayload, openGraphPayload, twitterCardsPayload]

/-- The schema of the result of a class of builders, if it has one. -/
def ofBuilder : BuilderKind → Option RecordSchema
  | .plain => none
  | .metaTags => some metaTagsPayload
  | .openGraph => some openGraphPayload
  | .article => some articlePayload
  | .twitterCards => some twitterCardsPayload

end PageMeta.Schema
