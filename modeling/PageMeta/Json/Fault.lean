import PageMeta.Numeric.Decimal

/-!
# Faults of a JSON text

Why a text is not JSON, and where.
-/

namespace PageMeta.Json

/-- What is wrong with a JSON text. -/
inductive FaultReason where
  | expectingValue
  | expectingName
  | expectingColon
  | expectingComma
  | extraData
  | unterminatedString
  | invalidEscape
  | invalidUnicodeEscape
  | invalidControl
  | byteOrderMark
deriving DecidableEq, Repr

/-- The wording of a reason. -/
def FaultReason.text : FaultReason → String
  | .expectingValue => "Expecting value"
  | .expectingName => "Expecting property name enclosed in double quotes"
  | .expectingColon => "Expecting ':' delimiter"
  | .expectingComma => "Expecting ',' delimiter"
  | .extraData => "Extra data"
  | .unterminatedString => "Unterminated string starting at"
  | .invalidEscape => "Invalid \\escape"
  | .invalidUnicodeEscape => "Invalid \\uXXXX escape"
  | .invalidControl => "Invalid control character at"
  | .byteOrderMark => "Unexpected UTF-8 BOM (decode using utf-8-sig)"

/-- A reason and the place it was met at. -/
structure Fault where
  reason : FaultReason
  /-- Number of characters before the place. -/
  position : Nat
  /-- Line of the place, from one. -/
  line : Nat
  /-- Column of the place, from one. -/
  column : Nat
deriving DecidableEq, Repr

/-- The text of a fault. -/
def Fault.text (fault : Fault) : String :=
  fault.reason.text ++ ": line " ++ Decimal.digitsOf fault.line ++ " column " ++
    Decimal.digitsOf fault.column ++ " (char " ++ Decimal.digitsOf fault.position ++ ")"

/-- The fault for a reason met after `position` characters of a text. -/
def Fault.at (text : List Char) (reason : FaultReason) (position : Nat) : Fault :=
  let before := text.take position
  { reason, position,
    line := before.count '\n' + 1,
    column := (before.reverse.takeWhile (· != '\n')).length + 1 }

end PageMeta.Json
