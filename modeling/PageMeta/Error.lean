import PageMeta.Json.Fault
import PageMeta.Object.Signature
import PageMeta.Plain.Fault
import PageMeta.Schema.Issue
import PageMeta.Schema.Misuse
import PageMeta.Text.Quoted
import PageMeta.Text.Utf8

/-!
# Errors

Every way an operation can fail, as a cause.  `Error.kind` is the class a caller catches it by,
`Error.message` its text.
-/

namespace PageMeta

/-- Why an operation failed. -/
inductive Error where
  /-- A key that was never written is read by name. -/
  | undefinedKey (key : String)
  /-- A value of this type cannot become an attribute map. -/
  | cannotWrap (type : String)
  /-- A value of this type cannot be merged. -/
  | cannotMerge (type : String)
  /-- A field takes one value. -/
  | severalValues (field : String) (count : Nat)
  /-- A field takes a value or a block. -/
  | valueWithBlock (field : String)
  /-- Builders of this class have no record schema. -/
  | noSchema (builder : String)
  /-- A section of a store is merged into, never replaced. -/
  | fixedSection (name : SectionName)
  | unknownSection (name : String)
  | settingsNotMapping (type : String)
  | mutatorNotCallable (type : String)
  /-- The rules that a value violates, in order. -/
  | violations (messages : List String)
  /-- A value does not fit a record schema. -/
  | mismatch (report : Schema.Report)
  /-- An error raised by a caller's routine. -/
  | raised (cls : ErrorClass) (message : String)
  /-- An attribute is missing, and the complaint says no more than its name. -/
  | missingName (name : String)
  | noAttribute (type name : String)
  | noClassAttribute (cls name : String)
  /-- A record of a schema has no attribute of a name. -/
  | noRecordAttribute (schema name : String)
  /-- An attribute that belongs to the class of an object cannot be written on the object. -/
  | readOnlyAttribute (type name : String)
  /-- An attribute is worked out, not stored. -/
  | computedAttribute (type name : String)
  /-- An attribute of plain data cannot be written. -/
  | fixedAttribute (type name : String)
  /-- An attribute of the states of features cannot be written. -/
  | fixedStateAttribute (name : String)
  /-- A constant of the class of the states of features cannot be written. -/
  | fixedState (name : String)
  /-- An attribute of a class of plain data cannot be written. -/
  | fixedClass (cls name : String)
  /-- A value of this type is to be the class of an object. -/
  | classType (type : String)
  /-- Objects of plain data cannot change their class. -/
  | classImmutable
  /-- Objects of one class cannot become objects of the other. -/
  | classLayout (new old : String)
  /-- A value of this type is to be the dictionary of attributes of an object. -/
  | attributesType (type : String)
  /-- A record schema has no field of a name and keeps no others. -/
  | noField (schema name : String)
  | notCallable (type : String)
  | noLength (type : String)
  | notIterable (type : String)
  | notContainer (type : String)
  | unhashable (type : String)
  | notSubscriptable (type : String)
  | classNotSubscriptable (cls : String)
  /-- A record schema, by the place where it is defined, takes no parameters; nor does what all
  records have in common. -/
  | schemaNotGeneric (path? : Option String)
  | noItemAssignment (type : String)
  /-- What is to be included or excluded is no container of keys. -/
  | selectionType (option : String)
  /-- A choice of parts is no dictionary. -/
  | choiceType
  /-- An index of this type into a sequence of that kind. -/
  | indexType (sequence type : String)
  | indexRange (sequence : String)
  /-- An index does not fit into 64 bits. -/
  | indexTooLarge (type : String)
  | assignmentRange
  | keyAbsent (key : String)
  | textOperand (type : String)
  | bytesOperand (type : String)
  | byteRange
  /-- What is looked for among the states of features is of this type. -/
  | stateOperand (type : String)
  /-- A value, as it is written, stands for no state of a feature. -/
  | notState (written : String)
  /-- An element of a sequence of pairs is no sequence. -/
  | elementNotSequence (index : Nat)
  /-- An element of a sequence of pairs has this many parts. -/
  | elementLength (index length : Nat)
  | keysNotIterable (builder type : String)
  /-- Something of this length is taken apart into a key and a value. -/
  | unpackLength (length : Nat)
  /-- A value of a class, as the class is written, has no place in a document. -/
  | notData (cls : String)
  /-- Bytes that are to be text in a document are none. -/
  | bytesNotText (fault : Text.Fault)
  /-- Bytes that are to be text in a written document are none. -/
  | unwritableBytes (fault : Text.Fault)
  | arity (function : String) (fault : ArityFault)
  /-- A call of a function of plain data fails. -/
  | plain (fault : Plain.Fault)
  /-- A call of a function of records cannot be carried out. -/
  | misuse (fault : Schema.Misuse)
  /-- A map got a new key while it was being gone through. -/
  | sizeChanged
  | cannotCopy (type : String)
  /-- A structure is nested without end. -/
  | tooDeep
  | fileMissing (path : String)
  | isDirectory (path : String)
  /-- A path, or a name in it, is longer than paths and names can be. -/
  | pathTooLong (path : String)
  | topNotObject (path : String)
  | notUtf8 (fault : Text.Fault)
  | notJson (fault : Json.Fault)
  | numberTooLong (digits : Nat)
deriving Repr

instance : Inhabited Error := ⟨.tooDeep⟩

namespace Error

/-- The name of the class of an error. -/
def kind : Error → String
  | .undefinedKey _ => ErrorClass.undefinedKey.name
  | .cannotWrap _ | .cannotMerge _ => ErrorClass.builderUse.name
  | .severalValues _ _ | .valueWithBlock _ | .noSchema _ => ErrorClass.fieldUse.name
  | .fixedSection _ | .unknownSection _ | .settingsNotMapping _ | .mutatorNotCallable _ =>
    ErrorClass.configuration.name
  | .violations _ | .mismatch _ => ErrorClass.validation.name
  | .raised cls _ => cls.name
  | .missingName _ | .noAttribute _ _ | .noClassAttribute _ _ | .noRecordAttribute _ _
  | .readOnlyAttribute _ _
  | .computedAttribute _ _ | .fixedAttribute _ _ | .fixedStateAttribute _ | .fixedState _ =>
    "AttributeError"
  | .notCallable _ | .noLength _ | .notIterable _ | .notContainer _ | .unhashable _
  | .notSubscriptable _ | .classNotSubscriptable _ | .schemaNotGeneric _ | .noItemAssignment _
  | .indexType _ _ | .textOperand _ | .bytesOperand _ | .stateOperand _
  | .selectionType _ | .choiceType | .fixedClass _ _ | .classType _ | .classImmutable
  | .classLayout _ _ | .attributesType _
  | .elementNotSequence _ | .keysNotIterable _ _ | .arity _ _ | .cannotCopy _ => "TypeError"
  | .indexRange _ | .assignmentRange | .indexTooLarge _ => "IndexError"
  | .keyAbsent _ => "KeyError"
  | .elementLength _ _ | .topNotObject _ | .numberTooLong _ | .noField _ _
  | .byteRange | .notState _ | .unpackLength _ => "ValueError"
  | .notData _ | .unwritableBytes _ => "PydanticSerializationError"
  | .plain fault => fault.kind
  | .misuse fault => fault.kind
  | .sizeChanged => "RuntimeError"
  | .tooDeep => "RecursionError"
  | .fileMissing _ => "FileNotFoundError"
  | .isDirectory _ => "IsADirectoryError"
  | .pathTooLong _ => "OSError"
  | .notUtf8 _ | .bytesNotText _ => "UnicodeDecodeError"
  | .notJson _ => "JSONDecodeError"

/-- Whether an error says that an attribute is missing. -/
def isMissingAttribute (e : Error) : Bool :=
  e.kind == "AttributeError" || e.kind == ErrorClass.undefinedKey.name

/-- The wording of a UTF-8 fault. -/
def utf8Text (fault : Text.Fault) : String :=
  let reason := match fault.reason with
    | .invalidStart => "invalid start byte"
    | .invalidContinuation => "invalid continuation byte"
    | .unexpectedEnd => "unexpected end of data"
  let first := Decimal.digitsOf fault.position
  if fault.length = 1 then
    "'utf-8' codec can't decode byte 0x" ++ String.ofList (Text.hex 2 fault.byte.toNat) ++
      " in position " ++ first ++ ": " ++ reason
  else
    "'utf-8' codec can't decode bytes in position " ++ first ++ "-" ++
      Decimal.digitsOf (fault.position + fault.length - 1) ++ ": " ++ reason

/-- The text of an error. -/
def message : Error → String
  | .undefinedKey key => "undefined key: " ++ key
  | .cannotWrap type => "Cannot wrap " ++ type
  | .cannotMerge type => "Cannot merge " ++ type
  | .severalValues field count =>
    field ++ ": 값은 하나만 전달할 수 있습니다 (받은 개수: " ++ Decimal.digitsOf count ++ ")"
  | .valueWithBlock field => field ++ ": 값과 블록을 함께 전달할 수 없습니다"
  | .noSchema builder => builder ++ "에는 결과 모델이 없습니다"
  | .fixedSection name =>
    name.name ++ " 섹션은 교체할 수 없습니다. merge() 또는 load_from_dict()를 사용하세요"
  | .unknownSection name => "알 수 없는 설정 섹션입니다: " ++ name
  | .settingsNotMapping type => "설정은 매핑이어야 합니다: " ++ type
  | .mutatorNotCallable type => "mutator는 호출 가능해야 합니다: " ++ type
  | .violations messages => String.intercalate ", " messages
  | .mismatch report => report.text
  | .raised .undefinedKey message => "undefined key: " ++ message
  | .raised _ message => message
  | .missingName name => name
  | .noAttribute type name => "'" ++ type ++ "' object has no attribute '" ++ name ++ "'"
  | .noClassAttribute cls name => "type object '" ++ cls ++ "' has no attribute '" ++ name ++ "'"
  | .noRecordAttribute schema name =>
    "'" ++ schema ++ "' object has no attribute " ++ Text.quote name
  | .readOnlyAttribute type name =>
    "'" ++ type ++ "' object attribute '" ++ name ++ "' is read-only"
  | .computedAttribute type name =>
    "property '" ++ name ++ "' of '" ++ type ++ "' object has no setter"
  | .fixedAttribute type name =>
    "attribute '" ++ name ++ "' of '" ++ type ++ "' objects is not writable"
  | .fixedStateAttribute name => "<enum 'Enum'> cannot set attribute " ++ Text.quote name
  | .fixedState name => "cannot reassign member " ++ Text.quote name
  | .fixedClass cls name =>
    "cannot set '" ++ name ++ "' attribute of immutable type '" ++ cls ++ "'"
  | .classType type => "__class__ must be set to a class, not '" ++ type ++ "' object"
  | .classImmutable =>
    "__class__ assignment only supported for mutable types or ModuleType subclasses"
  | .classLayout new old =>
    "__class__ assignment: '" ++ new ++ "' object layout differs from '" ++ old ++ "'"
  | .attributesType type => "__dict__ must be set to a dictionary, not a '" ++ type ++ "'"
  | .noField schema name => "\"" ++ schema ++ "\" object has no field \"" ++ name ++ "\""
  | .notCallable type => "'" ++ type ++ "' object is not callable"
  | .noLength type => "object of type '" ++ type ++ "' has no len()"
  | .notIterable type => "'" ++ type ++ "' object is not iterable"
  | .notContainer type => "argument of type '" ++ type ++ "' is not iterable"
  | .unhashable type => "unhashable type: '" ++ type ++ "'"
  | .notSubscriptable type => "'" ++ type ++ "' object is not subscriptable"
  | .classNotSubscriptable cls => "type '" ++ cls ++ "' is not subscriptable"
  | .schemaNotGeneric (some path) =>
    "<class '" ++ path ++
      "'> cannot be parametrized because it does not inherit from typing.Generic"
  | .schemaNotGeneric none => "Type parameters should be placed on typing.Generic, not BaseModel"
  | .noItemAssignment type => "'" ++ type ++ "' object does not support item assignment"
  | .selectionType option => "`" ++ option ++ "` argument must be a set or dict."
  | .choiceType =>
    "`include` and `exclude` must be of type `dict[str | int, <recursive>] | set[str | int | ...]`"
  | .indexType "string" type => "string indices must be integers, not '" ++ type ++ "'"
  | .indexType "byte" type => "byte indices must be integers or slices, not " ++ type
  | .indexType sequence type =>
    sequence ++ " indices must be integers or slices, not " ++ type
  | .indexRange sequence => sequence ++ " out of range"
  | .indexTooLarge type => "cannot fit '" ++ type ++ "' into an index-sized integer"
  | .assignmentRange => "list assignment index out of range"
  | .keyAbsent key => key
  | .textOperand type => "'in <string>' requires string as left operand, not " ++ type
  | .bytesOperand type => "a bytes-like object is required, not '" ++ type ++ "'"
  | .byteRange => "byte must be in range(0, 256)"
  | .stateOperand type => "unsupported operand type(s) for 'in': '" ++ type ++ "' and 'EnumType'"
  | .notState written => written ++ " is not a valid FeatureState"
  | .elementNotSequence index =>
    "cannot convert dictionary update sequence element #" ++ Decimal.digitsOf index ++
      " to a sequence"
  | .elementLength index length =>
    "dictionary update sequence element #" ++ Decimal.digitsOf index ++ " has length " ++
      Decimal.digitsOf length ++ "; 2 is required"
  | .keysNotIterable builder type =>
    builder ++ ".keys() returned a non-iterable (type " ++ type ++ ")"
  | .unpackLength length =>
    if 2 < length then "too many values to unpack (expected 2)"
    else "not enough values to unpack (expected 2, got " ++ Decimal.digitsOf length ++ ")"
  | .notData cls => "Unable to serialize unknown type: " ++ cls
  | .bytesNotText fault =>
    "'utf-8' codec can't decode byte 0x" ++ String.ofList (Text.hex 2 fault.byte.toNat) ++
      " in position " ++ Decimal.digitsOf fault.position ++ ": invalid utf-8"
  | .unwritableBytes fault =>
    "Error serializing to JSON: " ++
      (if fault.reason = .unexpectedEnd then "incomplete utf-8 byte sequence from index "
       else "invalid utf-8 sequence of " ++ Decimal.digitsOf fault.length ++
         " bytes from index ") ++ Decimal.digitsOf fault.position
  | .arity function fault => fault.text function
  | .plain fault => fault.text
  | .misuse fault => fault.text
  | .sizeChanged => "dictionary changed size during iteration"
  | .cannotCopy type => "cannot pickle '" ++ type ++ "' object"
  | .tooDeep => "maximum recursion depth exceeded"
  | .fileMissing path => "설정 파일을 찾을 수 없습니다: " ++ path
  | .isDirectory path => "[Errno 21] Is a directory: " ++ Text.quote path
  | .pathTooLong path => "[Errno 36] File name too long: " ++ Text.quote path
  | .topNotObject path => "설정 파일 최상위는 객체여야 합니다: " ++ path
  | .notUtf8 fault => utf8Text fault
  | .notJson fault => fault.text
  | .numberTooLong digits =>
    "Exceeds the limit (4300 digits) for integer string conversion: value has " ++
      Decimal.digitsOf digits ++ " digits; use sys.set_int_max_str_digits() to increase the limit"

end Error

end PageMeta
