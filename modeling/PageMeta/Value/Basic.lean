import PageMeta.Numeric.Binary64

/-!
# Values

What attribute maps, builders and settings hold.  A value is flat: a scalar, or a reference to a
cell of the heap that holds the parts of a compound.  A scalar carries a mark that tells it from
other objects with the same content.  So two values are the same object exactly if they are equal
as terms, and one cell can be shared by many holders.

The module also names the closed sets that the rest of the library switches on: the classes of
builders, the sections of a settings store, the states of a feature and the classes of errors.
-/

namespace PageMeta

/-- The address of a cell. -/
structure Ref where
  index : Nat
deriving DecidableEq, Repr, Inhabited

/-- The classes of builders. -/
inductive BuilderKind where
  | plain
  | metaTags
  | openGraph
  | article
  | twitterCards
deriving DecidableEq, Repr, Inhabited

/-- The class name of a builder. -/
def BuilderKind.name : BuilderKind → String
  | .plain => "BuilderBase"
  | .metaTags => "MetaTagsBuilder"
  | .openGraph => "OpenGraphBuilder"
  | .article => "ArticleBuilder"
  | .twitterCards => "TwitterCardsBuilder"

/-- All classes of builders. -/
def BuilderKind.all : List BuilderKind := [.plain, .metaTags, .openGraph, .article, .twitterCards]

/-- The sections of a settings store. -/
inductive SectionName where
  | metaTags
  | openGraph
  | twitter
  | structuredData
  | sitemap
  | robots
  | images
  | i18n
deriving DecidableEq, Repr, Inhabited

/-- The name of a section. -/
def SectionName.name : SectionName → String
  | .metaTags => "meta_tags"
  | .openGraph => "open_graph"
  | .twitter => "twitter"
  | .structuredData => "structured_data"
  | .sitemap => "sitemap"
  | .robots => "robots"
  | .images => "images"
  | .i18n => "i18n"

/-- All sections, in the order in which they are loaded and shown. -/
def SectionName.all : List SectionName :=
  [.metaTags, .openGraph, .twitter, .structuredData, .sitemap, .robots, .images, .i18n]

/-- The section of a name. -/
def SectionName.ofName? (name : String) : Option SectionName :=
  SectionName.all.find? fun s => s.name == name

/-- Answers to the question whether a feature is on. -/
inductive FeatureState where
  | enabled
  | disabled
  | unknown
deriving DecidableEq, Repr, Inhabited

/-- All states. -/
def FeatureState.all : List FeatureState := [.enabled, .disabled, .unknown]

/-- The text of a state. -/
def FeatureState.text : FeatureState → String
  | .enabled => "enabled"
  | .disabled => "disabled"
  | .unknown => "unknown"

/-- The constant that names a state. -/
def FeatureState.constant : FeatureState → String
  | .enabled => "ENABLED"
  | .disabled => "DISABLED"
  | .unknown => "UNKNOWN"

/-- The classes of errors that users of the library can raise and catch. -/
inductive ErrorClass where
  | general
  | configuration
  | validation
  | builderUse
  | fieldUse
  | undefinedKey
deriving DecidableEq, Repr, Inhabited

/-- The name of a class of errors. -/
def ErrorClass.name : ErrorClass → String
  | .general => "SeoBuilderError"
  | .configuration => "ConfigurationError"
  | .validation => "ValidationError"
  | .builderUse => "DSLError"
  | .fieldUse => "InvalidBuilderError"
  | .undefinedKey => "NoSuchKeyError"

/-- All classes of errors. -/
def ErrorClass.all : List ErrorClass :=
  [.general, .configuration, .validation, .builderUse, .fieldUse, .undefinedKey]

/-- A class as a value. -/
inductive ClassName where
  | builder (kind : BuilderKind)
  /-- The class of the fields of builders that go by undeclared names. -/
  | dynamicField
  | attributeMap
  | settingsStore
  /-- The class of what sections are called on the class of settings stores itself. -/
  | sectionHandle
  | featureState
  | error (cls : ErrorClass)
  /-- What all records have in common. -/
  | record
  /-- A record schema, by name. -/
  | schema (name : String)
  /-- A class of plain data, of functions or of classes, by name. -/
  | data (name : String)
deriving DecidableEq, Repr

namespace ClassName

/-- The name of a class. -/
def name : ClassName → String
  | .builder kind => kind.name
  | .dynamicField => "_DynamicField"
  | .attributeMap => "DynamicAttributeMap"
  | .settingsStore => "ConfigStore"
  | .sectionHandle => "_Section"
  | .featureState => "FeatureState"
  | .error cls => cls.name
  | .record => "BaseModel"
  | .schema name | .data name => name

/-- The class at the root of all classes. -/
def root : ClassName := .data "object"

/-- The class of texts. -/
def text : ClassName := .data "str"

/-- The class at the root of all classes of closed sets. -/
def closedSet : ClassName := .data "Enum"

/-- The classes that stand between a class and the root of all classes, nearest first. -/
def ancestors : ClassName → List ClassName
  | .builder .plain | .dynamicField | .attributeMap | .settingsStore | .sectionHandle | .record => []
  | .builder _ => [.builder .plain]
  | .featureState => [text, closedSet]
  | .error cls => errorAncestors cls
  | .schema _ => [.record]
  | .data "bool" => [.data "int"]
  | .data "ModelMetaclass" => [.data "ABCMeta", .data "type"]
  | .data "ABCMeta" | .data "EnumType" => [.data "type"]
  | .data "AttributeError" => [.data "Exception", .data "BaseException"]
  | .data "Exception" => [.data "BaseException"]
  | .data _ => []
where
  /-- The classes that catch an error of a class, nearest first. -/
  errorAncestors : ErrorClass → List ClassName
    | .general => [.data "Exception", .data "BaseException"]
    | .configuration | .validation | .builderUse =>
      [.error .general, .data "Exception", .data "BaseException"]
    | .fieldUse =>
      [.error .builderUse, .error .general, .data "Exception", .data "BaseException"]
    | .undefinedKey =>
      [.error .builderUse, .error .general, .data "AttributeError", .data "Exception",
       .data "BaseException"]

/-- The order in which classes are searched for what an object of a class answers. -/
def searchOrder (cls : ClassName) : List ClassName :=
  if cls = root then [root] else cls :: cls.ancestors ++ [root]

/-- The classes that a class is derived from directly. -/
def bases : ClassName → List ClassName
  | .featureState => [text, closedSet]
  | .error .undefinedKey => [.error .builderUse, .data "AttributeError"]
  | cls => (cls.searchOrder.drop 1).take 1

/-- The classes of the library that are derived directly from a class, in the order in which they are
defined. -/
def derived : ClassName → List ClassName
  | .builder .plain =>
    [.builder .metaTags, .builder .article, .builder .openGraph, .builder .twitterCards]
  | .error .general => [.error .configuration, .error .validation, .error .builderUse]
  | .error .builderUse => [.error .fieldUse, .error .undefinedKey]
  | _ => []

/-- The class that decides how the objects of a class are laid out. -/
def base? : ClassName → Option ClassName
  | .error .undefinedKey => some (.data "AttributeError")
  | cls => cls.bases.head?

/-- The class of a class. -/
def classOf : ClassName → ClassName
  | .schema _ | .record => .data "ModelMetaclass"
  | .featureState | .data "Enum" => .data "EnumType"
  | _ => .data "type"

end ClassName

/-! ## Values -/

/-- Which of the objects with one content a scalar is. -/
inductive Mark where
  /-- The one that the library itself names, or the only one there is. -/
  | shared
  /-- The one in the pool of short texts that reading records fills. -/
  | pooled
  /-- The one that was written down at a place of a script. -/
  | written (place : Nat)
  /-- The one that was made after so many others. -/
  | made (number : Nat)
  /-- One that is about to be made. -/
  | pending
deriving DecidableEq, Repr, Inhabited

/-- A value. -/
inductive Value where
  | none
  | bool (b : Bool)
  | int (n : Int) (mark : Mark)
  | real (x : Binary64) (mark : Mark)
  | text (s : String) (mark : Mark)
  | bytes (bs : List UInt8) (mark : Mark)
  /-- A cell of the heap. -/
  | ref (r : Ref)
  /-- A function of a class, bound to the object it is about. -/
  | method (receiver : Value) (owner : ClassName) (name : String) (mark : Mark)
  /-- A function of a class, to be called with the object it is about as first argument. -/
  | function (owner : ClassName) (name : String)
  | classOf (name : ClassName)
  /-- What a section is called on the class of settings stores itself. -/
  | sectionHandle (name : SectionName)
  | feature (state : FeatureState)
  /-- A caller's routine, by number. -/
  | routine (id : Nat)
deriving DecidableEq, Repr

instance : Inhabited Value := ⟨.none⟩

namespace Value

/-- A text that the library names itself. -/
def ofText (s : String) : Value := .text s .shared

/-- An integer that the library names itself. -/
def ofInt (n : Int) : Value := .int n .shared

/-- A text about to be made. -/
def newText (s : String) : Value := .text s .pending

/-- An integer about to be made. -/
def newInt (n : Int) : Value := .int n .pending

/-- A text of one character; there is one only of each of the first 256 characters. -/
def ofChar (c : Char) : Value :=
  .text (String.singleton c) (if c.toNat < 256 then .shared else .pending)

/-- Whether a value is the absent value. -/
def isNone : Value → Bool
  | .none => true
  | _ => false

/-- The number a value stands for, if it is an integer or a truth value. -/
def integer? : Value → Option Int
  | .int n _ => some n
  | .bool b => some (if b then 1 else 0)
  | _ => Option.none

/-- The text of a value that is text. -/
def text? : Value → Option String
  | .text s _ => some s
  | .feature state => some state.text
  | _ => Option.none

/-- Equality of scalars.  Numbers are compared as numbers, whatever their type, and the state of a
feature equals its text.  `inside` says that the two are compared as parts of a container, which
takes one and the same not-a-number for equal. -/
def sameScalar (inside : Bool) : Value → Value → Bool
  | .real x m, .real y n => x.same y || (inside && x == y && m == n)
  | .real x _, w =>
    match x.toInt?, w.integer? with
    | some m, some n => m == n
    | _, _ => false
  | v, .real y _ =>
    match v.integer?, y.toInt? with
    | some m, some n => m == n
    | _, _ => false
  | .bytes bs _, .bytes cs _ => bs == cs
  | .method v owner name _, .method w other name' _ => v == w && owner == other && name == name'
  | v, w =>
    match v.integer?, w.integer? with
    | some m, some n => m == n
    | some _, Option.none => false
    | Option.none, some _ => false
    | Option.none, Option.none =>
      match v.text?, w.text? with
      | some s, some t => s == t
      | _, _ => v == w

/-- An integer is equal to the double of the same number. -/
example : sameScalar false (ofInt 1) (.real (Binary64.ofInt 1) .pending) = true := by decide +kernel

end Value

/-- A name as it was written down. -/
structure Name where
  text : String
  mark : Mark
deriving Repr

namespace Name

/-- A name that the library uses itself. -/
def ofText (s : String) : Name := ⟨s, .shared⟩

instance : Coe String Name := ⟨ofText⟩

/-- Names are the same if their texts are. -/
instance : BEq Name := ⟨fun m n => m.text == n.text⟩

/-- A name as a value. -/
def value (n : Name) : Value := .text n.text n.mark

end Name

/-- A key of a dictionary: a value without parts, or a tuple of keys at an address. -/
inductive Key where
  | atom (v : Value)
  | tuple (r : Ref) (items : List Key)
deriving Repr

instance : Inhabited Key := ⟨.atom .none⟩

namespace Key

mutual

/-- Whether two keys are the same key: numbers count by value, whatever their type. -/
def same : Key → Key → Bool
  | .atom v, .atom w => v.sameScalar true w
  | .tuple _ ks, .tuple _ ls => sameList ks ls
  | _, _ => false

/-- `same`, part by part. -/
def sameList : List Key → List Key → Bool
  | [], [] => true
  | k :: ks, l :: ls => same k l && sameList ks ls
  | _, _ => false

end

instance : BEq Key := ⟨same⟩

/-- A key as a value. -/
def value : Key → Value
  | .atom v => v
  | .tuple r _ => .ref r

/-- A text that the library names itself as a key. -/
def ofText (s : String) : Key := .atom (.ofText s)

/-- Keys made of texts are the same exactly if the texts are. -/
@[simp] theorem same_ofText (s t : String) : same (ofText s) (ofText t) = (s == t) := rfl

mutual

/-- A key is the same as itself. -/
theorem same_refl : ∀ k : Key, same k k = true
  | .atom v => by
    cases v <;> simp [same, Value.sameScalar, Value.integer?, Value.text?]
  | .tuple _ items => by
    simp [same, sameList_refl items]

/-- `same_refl`, part by part. -/
theorem sameList_refl : ∀ ks : List Key, sameList ks ks = true
  | [] => rfl
  | k :: rest => by simp [sameList, same_refl k, sameList_refl rest]

end

instance : ReflBEq Key where
  rfl {k} := same_refl k

end Key

end PageMeta
