import PageMeta.Value.Tree

/-!
# Record schemas

A schema names the fields of a record, the shape of each field's value and what the field holds
when it is left out.  Schemas are data: one checker (`PageMeta.Schema.Check`) reads them all, and one
maker (`PageMeta.Schema.Instance`) makes records with their defaults.

A manner of reading says how a value is read as a record: where its parts come from, how strict the
reading is, what becomes of entries that a schema has no field for, and whether the attributes of an
object can stand in for entries.
-/

namespace PageMeta

/-- What a field holds when it is left out. -/
inductive FieldDefault where
  /-- It must not be left out. -/
  | required
  /-- A new copy of a tree. -/
  | value (t : Tree String)
  /-- A new record of the field's own schema with its defaults. -/
  | record
  /-- A new dictionary that has such a record under one key. -/
  | recordUnder (key : String)

mutual

/-- The shape of a value. -/
inductive Shape where
  | anything
  /-- Text of at least so many characters. -/
  | text (least : Nat)
  | flag
  /-- An integer between bounds. -/
  | integer (least most : Option Int)
  /-- A number between bounds. -/
  | number (least most : Option Int)
  /-- A list of texts. -/
  | texts
  /-- A dictionary with text keys. -/
  | mapping (item : Shape)
  | record (schema : RecordSchema)
  /-- Nothing, or a value of a shape. -/
  | optional (shape : Shape)
  /-- Text, or a dictionary with text keys. -/
  | textOrMapping

/-- A record schema: its name, its fields, and whether other entries are kept. -/
inductive RecordSchema where
  | mk (name : String) (fields : List SchemaField) (keepsOthers : Bool)

/-- A field of a schema. -/
inductive SchemaField where
  | mk (name : String) (shape : Shape) (default : FieldDefault)

end

namespace SchemaField

/-- The name of a field. -/
def name : SchemaField → String
  | .mk name _ _ => name

/-- The shape of a field's value. -/
def shape : SchemaField → Shape
  | .mk _ shape _ => shape

end SchemaField

namespace RecordSchema

/-- The name of a schema. -/
def name : RecordSchema → String
  | .mk name _ _ => name

/-- The fields of a schema. -/
def fields : RecordSchema → List SchemaField
  | .mk _ fields _ => fields

/-- Whether a schema keeps entries that it has no field for. -/
def keepsOthers : RecordSchema → Bool
  | .mk _ _ keeps => keeps

/-- Whether a schema has a field of a name. -/
def hasField (s : RecordSchema) (name : String) : Bool := s.fields.any (·.name == name)

end RecordSchema

/-! ## Manners of reading -/

namespace Schema

/-- Where the parts of a value come from. -/
inductive Source where
  /-- From a program, which has values of every type. -/
  | program
  /-- From a document, which has lists and objects, texts, numbers and truth values. -/
  | document
  /-- From a form, which has nothing but texts in dictionaries. -/
  | form
deriving DecidableEq, Repr

/-- What becomes of entries that a schema has no field for. -/
inductive Surplus where
  | kept
  | dropped
  | refused
deriving DecidableEq, Repr

/-- A manner of reading. -/
structure Manner where
  source : Source := .program
  /-- Whether a value of one type can stand in for one of another. -/
  isStrict : Bool := false
  /-- What becomes of surplus entries, if it is not left to the schema. -/
  surplus? : Option Surplus := none
  /-- Whether the attributes of an object stand in for entries. -/
  takesAttributes : Bool := false
deriving Repr

/-- The manner in which the results of builders are read. -/
def Manner.usual : Manner := {}

/-- Whether texts, numbers and truth values can stand in for one another; in a form they have to. -/
def Manner.isLenient (manner : Manner) : Bool := manner.source = .form || !manner.isStrict

end Schema

end PageMeta
