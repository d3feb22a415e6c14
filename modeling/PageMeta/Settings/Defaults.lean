import PageMeta.Value.Tree

/-!
# Default settings

The settings every store starts from, as a tree: three scalars, then one map per section in the
order of `SectionName.all`.
-/

namespace PageMeta.Settings

/-- A text as a tree. -/
def text (s : String) : Tree String := .leaf (.ofText s)

/-- A truth value as a tree. -/
def flag (b : Bool) : Tree String := .leaf (.bool b)

/-- An integer as a tree. -/
def number (n : Int) : Tree String := .leaf (.ofInt n)

/-- The absent value as a tree. -/
def absent : Tree String := .leaf .none

/-- The name of the site has no default. -/
def defaultSiteName : Value := .none

/-- The default locale. -/
def defaultLocale : Value := .ofText "en"

/-- The default of the available locales. -/
def defaultLocales : Tree String := .list [text "en"]

/-- The default image of shared pages. -/
def defaultImage : Tree String :=
  .map [("url", absent), ("width", number 1200), ("height", number 630)]

/-- The default entry of a site map. -/
def defaultSitemapEntry : Tree String :=
  .map [("changefreq", text "weekly"), ("priority", .leaf (.real Binary64.half .shared))]

/-- What a crawler may do by default. -/
def defaultCrawlerRule : Tree String :=
  .map [("allow", .list [text "/"]), ("disallow", .list []), ("crawl_delay", absent)]

/-- The default sizes of images; each size has the keys it needs. -/
def defaultImageSizes : Tree String :=
  .map [("thumbnail", .map [("width", number 150), ("height", number 150)]),
    ("small", .map [("width", number 300)]),
    ("medium", .map [("width", number 600)]),
    ("large", .map [("width", number 1200)]),
    ("og_image", .map [("width", number 1200), ("height", number 630), ("crop", flag true)])]

/-- The defaults of a section. -/
def defaultSection : SectionName → Tree String
  | .metaTags =>
    .map [("default_title", absent), ("title_separator", text " | "),
      ("append_site_name", flag true), ("default_description", absent),
      ("default_keywords", .list []), ("default_author", absent)]
  | .openGraph =>
    .map [("enabled", flag true), ("site_name", absent), ("default_type", text "website"),
      ("default_locale", text "en_US"), ("default_image", defaultImage)]
  | .twitter =>
    .map [("enabled", flag true), ("site", absent), ("creator", absent),
      ("card_type", text "summary_large_image")]
  | .structuredData =>
    .map [("enabled", flag true), ("organization", .map []), ("website", .map [])]
  | .sitemap =>
    .map [("enabled", flag false), ("output_path", text "public/sitemap.xml"), ("host", absent),
      ("compress", flag false), ("ping_search_engines", flag false),
      ("defaults", defaultSitemapEntry)]
  | .robots =>
    .map [("enabled", flag false), ("output_path", text "public/robots.txt"),
      ("user_agents", .map [("*", defaultCrawlerRule)])]
  | .images =>
    .map [("enabled", flag false),
      ("webp", .map [("enabled", flag true), ("quality", number 80)]),
      ("sizes", defaultImageSizes)]
  | .i18n =>
    .map [("load_path", text "config/locales/seo/**/*.yml"), ("auto_reload", flag false)]

/-- All default settings. -/
def defaults : Tree String :=
  .map (("site_name", .leaf defaultSiteName) :: ("default_locale", .leaf defaultLocale) ::
    ("available_locales", defaultLocales) ::
    SectionName.all.map fun s => (s.name, defaultSection s))

end PageMeta.Settings
