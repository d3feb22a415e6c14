import PageMeta.Schema.Payload
import PageMeta.Settings.Defaults

/-!
# Settings schemas

The default settings as record schemas: each section with the types and bounds of its entries.
They drop entries they have no field for.
-/

namespace PageMeta.Schema

open Settings (text flag number absent)

/-- A field with a default. -/
def field (name : String) (shape : Shape) (default : Tree String) : SchemaField :=
  .mk name shape (.value default)

/-- A text with a default. -/
def textField (name default : String) : SchemaField := field name (.text 0) (text default)

/-- A text that must not be empty, with a default. -/
def filledText (name default : String) : SchemaField := field name (.text 1) (text default)

/-- A truth value with a default. -/
def flagField (name : String) (default : Bool) : SchemaField := field name .flag (flag default)

/-- A record whose default is made of its own defaults. -/
def recordField (name : String) (schema : RecordSchema) : SchemaField :=
  .mk name (.record schema) .record

/-- A schema that drops other entries. -/
def settings (name : String) (fields : List SchemaField) : RecordSchema := .mk name fields false

/-- Defaults of meta tags. -/
def metaTagsDefaults : RecordSchema :=
  settings "MetaTagsDefaults"
    [optionalText "default_title", textField "title_separator" " | ",
     flagField "append_site_name" true, optionalText "default_description",
     field "default_keywords" .texts (.list []), optionalText "default_author"]

/-- The default image. -/
def imageDefaults : RecordSchema :=
  settings "ImageDefaults"
    [optionalText "url", field "width" (.integer (some 1) none) (number 1200),
     field "height" (.integer (some 1) none) (number 630)]

/-- Defaults of Open Graph. -/
def openGraphDefaults : RecordSchema :=
  settings "OpenGraphDefaults"
    [flagField "enabled" true, optionalText "site_name", textField "default_type" "website",
     textField "default_locale" "en_US", recordField "default_image" imageDefaults]

/-- Defaults of Twitter Cards. -/
def twitterDefaults : RecordSchema :=
  settings "TwitterDefaults"
    [flagField "enabled" true, optionalText "site", optionalText "creator",
     textField "card_type" "summary_large_image"]

/-- Defaults of structured data. -/
def structuredDataDefaults : RecordSchema :=
  settings "StructuredDataDefaults"
    [flagField "enabled" true, field "organization" (.mapping .anything) (.map []),
     field "website" (.mapping .anything) (.map [])]

/-- Defaults of an entry of a site map. -/
def sitemapEntryDefaults : RecordSchema :=
  settings "SitemapEntryDefaults"
    [textField "changefreq" "weekly",
     field "priority" (.number (some 0) (some 1)) (.leaf (.real Binary64.half .shared))]

/-- Defaults of site maps. -/
def sitemapDefaults : RecordSchema :=
  settings "SitemapDefaults"
    [flagField "enabled" false, filledText "output_path" "public/sitemap.xml",
     optionalText "host", flagField "compress" false, flagField "ping_search_engines" false,
     recordField "defaults" sitemapEntryDefaults]

/-- What one crawler may do. -/
def userAgentRule : RecordSchema :=
  settings "UserAgentRule"
    [field "allow" .texts (.list [text "/"]), field "disallow" .texts (.list []),
     field "crawl_delay" (.optional (.number none none)) absent]

/-- Defaults of the rules for crawlers. -/
def robotsDefaults : RecordSchema :=
  settings "RobotsDefaults"
    [flagField "enabled" false, filledText "output_path" "public/robots.txt",
     .mk "user_agents" (.mapping (.record userAgentRule)) (.recordUnder "*")]

/-- Defaults of image conversion. -/
def webpDefaults : RecordSchema :=
  settings "WebpDefaults"
    [flagField "enabled" true, field "quality" (.integer (some 1) (some 100)) (number 80)]

/-- Defaults of images. -/
def imagesDefaults : RecordSchema :=
  settings "ImagesDefaults"
    [flagField "enabled" false, recordField "webp" webpDefaults,
     field "sizes" (.mapping (.mapping .anything)) Settings.defaultImageSizes]

/-- Defaults of translations. -/
def i18nDefaults : RecordSchema :=
  settings "I18nDefaults"
    [filledText "load_path" "config/locales/seo/**/*.yml", flagField "auto_reload" false]

/-- All default settings. -/
def allDefaults : RecordSchema :=
  settings "SeoDefaults"
    [optionalText "site_name", filledText "default_locale" "en",
     field "available_locales" .texts Settings.defaultLocales,
     recordField "meta_tags" metaTagsDefaults, recordField "open_graph" openGraphDefaults,
     recordField "twitter" twitterDefaults, recordField "structured_data" structuredDataDefaults,
     recordField "sitemap" sitemapDefaults, recordField "robots" robotsDefaults,
     recordField "images" imagesDefaults, recordField "i18n" i18nDefaults]

/-- All schemas. -/
def all : List RecordSchema :=
  payloads ++
  [metaTagsDefaults, imageDefaults, openGraphDefaults, twitterDefaults, structuredDataDefaults,
   sitemapEntryDefaults, sitemapDefaults, userAgentRule, robotsDefaults, webpDefaults,
   imagesDefaults, i18nDefaults, allDefaults]

/-- The schema of a name. -/
def named? (name : String) : Option RecordSchema := all.find? (·.name == name)

/-- The names of the fields of the schema of a name. -/
def fieldNames (name : String) : List String :=
  ((named? name).map fun s => s.fields.map SchemaField.name).getD []

end PageMeta.Schema
