import PageMeta.Numeric.Decimal
import PageMeta.Text.Utf8
import PageMeta.Value.Tree

/-!
# Reading documents

Reads bytes as the JSON document of a record.  `NaN`, `Infinity` and `-Infinity` are read as numbers.
An object keeps a repeated key where it came first, with the value that came last.  A document can be
nested at most `maxDepth` deep.

Every reader takes the bytes that are left and gives what it read together with the bytes after it.
A stop names its place by how many bytes are left there; `read` turns that into a line and a column,
counted in bytes.
-/

namespace PageMeta.Json.Document

/-- Why bytes are no document. -/
inductive Reason where
  | endOfValue
  | endOfList
  | endOfObject
  | endOfString
  | colonExpected
  | listEndExpected
  | objectEndExpected
  | identifierExpected
  | valueExpected
  | badEscape
  | badNumber
  | numberRange
  | trailingComma
  | trailingCharacters
  | keyExpected
  | controlCharacter
  | loneHalf
  | endOfEscape
  | badCodePoint
  | tooDeep
deriving DecidableEq, Repr

/-- The wording of a reason. -/
def Reason.text : Reason → String
  | .endOfValue => "EOF while parsing a value"
  | .endOfList => "EOF while parsing a list"
  | .endOfObject => "EOF while parsing an object"
  | .endOfString => "EOF while parsing a string"
  | .colonExpected => "expected `:`"
  | .listEndExpected => "expected `,` or `]`"
  | .objectEndExpected => "expected `,` or `\x7d`"
  | .identifierExpected => "expected ident"
  | .valueExpected => "expected value"
  | .badEscape => "invalid escape"
  | .badNumber => "invalid number"
  | .numberRange => "number out of range"
  | .trailingComma => "trailing comma"
  | .trailingCharacters => "trailing characters"
  | .keyExpected => "key must be a string"
  | .controlCharacter => "control character (\\u0000-\\u001F) found while parsing a string"
  | .loneHalf => "lone leading surrogate in hex escape"
  | .endOfEscape => "unexpected end of hex escape"
  | .badCodePoint => "invalid unicode code point"
  | .tooDeep => "recursion limit exceeded"

/-- A reason, and how many bytes are left at its place. -/
structure Stop where
  reason : Reason
  left : Nat
deriving DecidableEq, Repr

/-- Bytes that are left. -/
abbrev Bytes := List UInt8

/-- Stops before the bytes that are left. -/
def stop {α : Type} (reason : Reason) (rest : Bytes) : Except Stop α :=
  .error ⟨reason, rest.length⟩

/-- The byte of an ASCII character. -/
def byteOf (c : Char) : UInt8 := c.toNat.toUInt8

/-- The ASCII character of a byte. -/
def charOf (b : UInt8) : Char := Char.ofNat b.toNat

/-- Whether a byte may stand between tokens. -/
def isBlank (b : UInt8) : Bool := [' ', '\t', '\n', '\r'].contains (charOf b)

/-- Drops the blanks in front. -/
def skipBlanks (text : Bytes) : Bytes := text.dropWhile isBlank

/-- Whether a byte is a digit. -/
def isDigit (b : UInt8) : Bool := (charOf b).isDigit

/-! ## Numbers and names -/

/-- Reads the rest of a name. -/
def readName (text : Bytes) : List Char → Except Stop Bytes
  | [] => .ok text
  | c :: expected =>
    match text with
    | [] => stop .endOfValue []
    | b :: rest =>
      if b = byteOf c then readName rest expected else stop .identifierExpected (b :: rest)

/-- Drops digits, of which there must be one. -/
def skipDigits (text : Bytes) : Except Stop Bytes :=
  match text with
  | [] => stop .endOfValue []
  | b :: rest => if isDigit b then .ok (rest.dropWhile isDigit) else stop .badNumber (b :: rest)

/-- Drops an exponent, if there is one. -/
def skipExponent (text : Bytes) : Except Stop Bytes :=
  match text with
  | b :: rest =>
    if charOf b = 'e' ∨ charOf b = 'E' then
      match rest with
      | s :: more => skipDigits (if charOf s = '+' ∨ charOf s = '-' then more else s :: more)
      | [] => stop .endOfValue []
    else .ok text
  | [] => .ok text

/-- Drops a fraction and an exponent, as far as there are any. -/
def skipFraction (text : Bytes) : Except Stop Bytes :=
  match text with
  | b :: rest => if charOf b = '.' then do skipExponent (← skipDigits rest) else skipExponent text
  | [] => .ok text

/-- The most bytes that an integer may have. -/
def maxDigits : Nat := 4300

/-- The characters of `text` in front of `rest`. -/
def spanTo (text rest : Bytes) : List Char := (text.take (text.length - rest.length)).map charOf

/-- A number whose whole part ends where `afterWhole` begins; `text` begins behind its sign. -/
def readParts (negative : Bool) (text afterWhole : Bytes) : Except Stop (Value × Bytes) := do
  let rest ← skipFraction afterWhole
  let whole := spanTo text afterWhole
  if rest.length = afterWhole.length then
    let n : Int := Decimal.natOf whole
    return (.newInt (if negative then -n else n), rest)
  else
    let x := (Decimal.unsigned? negative (spanTo text rest)).getD .nan
    return (.real x .pending, rest)

/-- Reads a number from behind its sign on; `start` begins with the sign. -/
def readMagnitude (negative : Bool) (start text : Bytes) : Except Stop (Value × Bytes) :=
  match text with
  | [] => stop .endOfValue []
  | b :: rest =>
    if charOf b = '0' then
      match rest with
      | d :: _ => if isDigit d then stop .badNumber rest else readParts negative text rest
      | [] => readParts negative text rest
    else if isDigit b then
      let afterWhole := rest.dropWhile isDigit
      if maxDigits < start.length - afterWhole.length then
        .error ⟨.numberRange, start.length - (maxDigits + 1)⟩
      else readParts negative text afterWhole
    else if charOf b = 'I' then do
      let after ← readName rest "nfinity".toList
      return (.real (.infinite negative) .pending, after)
    else stop .badNumber text

/-- Reads a number or a name. -/
def readScalar (text : Bytes) : Except Stop (Value × Bytes) :=
  match text with
  | [] => stop .endOfValue []
  | b :: rest =>
    let named := fun (name : String) (v : Value) => do return (v, ← readName rest name.toList)
    match charOf b with
    | 'n' => named "ull" .none
    | 't' => named "rue" (.bool true)
    | 'f' => named "alse" (.bool false)
    | 'N' => named "aN" (.real .nan .pending)
    | '-' => readMagnitude true text rest
    | c =>
      if c.isDigit || c = 'I' then readMagnitude false text text else stop .valueExpected text

/-! ## Strings -/

/-- The number of a hexadecimal digit. -/
def hexDigit? (b : UInt8) : Option Nat :=
  let c := charOf b
  if '0' ≤ c ∧ c ≤ '9' then some (c.toNat - '0'.toNat)
  else if 'a' ≤ c ∧ c ≤ 'f' then some (c.toNat - 'a'.toNat + 10)
  else if 'A' ≤ c ∧ c ≤ 'F' then some (c.toNat - 'A'.toNat + 10)
  else none

/-- Reads `count` hexadecimal digits. -/
def readHex : Nat → Nat → Bytes → Except Stop (Nat × Bytes)
  | 0, n, rest => .ok (n, rest)
  | count + 1, n, text =>
    match text with
    | [] => stop .endOfString []
    | b :: rest =>
      match hexDigit? b with
      | some d => readHex count (n * 16 + d) rest
      | none => stop .badEscape (b :: rest)

/-- Reads four hexadecimal digits. -/
def readUnit (text : Bytes) : Except Stop (Nat × Bytes) :=
  if text.length < 4 then stop .endOfString [] else readHex 4 0 text

/-- Whether a code unit is the first half of a pair. -/
def isHighHalf (unit : Nat) : Bool := 0xd800 ≤ unit && unit < 0xdc00

/-- Whether a code unit is the second half of a pair. -/
def isLowHalf (unit : Nat) : Bool := 0xdc00 ≤ unit && unit < 0xe000

/-- Stops before the last of the bytes in front of `rest`. -/
def stopBefore {α : Type} (reason : Reason) (rest : Bytes) : Except Stop α :=
  .error ⟨reason, rest.length + 1⟩

/-- Reads the digits of a numeric escape. -/
def readEscapedChar (text : Bytes) : Except Stop (Char × Bytes) := do
  let (unit, rest) ← readUnit text
  if isLowHalf unit then stopBefore .loneHalf rest
  else if isHighHalf unit then
    match rest with
    | [] => stop .endOfString []
    | b :: more =>
      if charOf b = '\\' then
        match more with
        | [] => stop .endOfString []
        | u :: digits =>
          if charOf u = 'u' then
            let (low, after) ← readUnit digits
            if isLowHalf low then
              return (Char.ofNat (0x10000 + (unit - 0xd800) * 0x400 + (low - 0xdc00)), after)
            else stopBefore .loneHalf after
          else stop .endOfEscape more
      else stop .endOfEscape rest
  else return (Char.ofNat unit, rest)

/-- The characters that a backslash and a letter stand for. -/
def letterEscapes : List (Char × Char) :=
  [('"', '"'), ('\\', '\\'), ('/', '/'), ('b', '\x08'), ('f', '\x0c'), ('n', '\n'), ('r', '\r'),
   ('t', '\t')]

/-- Reads an escape from behind its backslash on: the bytes that it stands for. -/
def readEscape (text : Bytes) : Except Stop (Bytes × Bytes) :=
  match text with
  | [] => stop .endOfString []
  | b :: rest =>
    match charOf b, letterEscapes.lookup (charOf b) with
    | 'u', _ => do
      let (c, after) ← readEscapedChar rest
      return ((String.singleton c).toUTF8.toList, after)
    | _, some meant => .ok ([byteOf meant], rest)
    | _, none => stop .badEscape text

/-- Reads the bytes of a string up to the closing quote, in at most `steps` steps. -/
def readBytes : Nat → Bytes → Except Stop (Bytes × Bytes)
  | 0, text => stop .endOfString text
  | steps + 1, text =>
    match text with
    | [] => stop .endOfString []
    | b :: rest =>
      if charOf b = '"' then .ok ([], rest)
      else if charOf b = '\\' then do
        let (meant, after) ← readEscape rest
        let (bytes, after) ← readBytes steps after
        return (meant ++ bytes, after)
      else if b.toNat < 0x20 then stop .controlCharacter text
      else do
        let (bytes, after) ← readBytes steps rest
        return (b :: bytes, after)

/-- Reads a string from behind its opening quote on. -/
def readString (text : Bytes) : Except Stop (String × Bytes) := do
  let (bytes, rest) ← readBytes (text.length + 1) text
  match Text.decode bytes with
  | .ok s => return (s, rest)
  | .error fault => .error ⟨.badCodePoint, text.length - (fault.position + 1)⟩

/-! ## Values -/

/-- How deep a document can be nested. -/
def maxDepth : Nat := 200

/-- Reads a key and the colon after it, from behind the opening quote of the key on. -/
def readKey (text : Bytes) : Except Stop (String × Bytes) := do
  let (key, rest) ← readString text
  match skipBlanks rest with
  | [] => stop .endOfObject []
  | b :: after => if charOf b = ':' then return (key, after) else stop .colonExpected (b :: after)

mutual

/-- Reads a value that is nested `level` deep, with at most `steps` nested or consecutive parts. -/
def readValue : Nat → Nat → Bytes → Except Stop (Tree String × Bytes)
  | 0, _, text => stop .valueExpected text
  | steps + 1, level, text =>
    match text with
    | [] => stop .endOfValue []
    | b :: rest =>
      match charOf b with
      | '"' => do
        let (s, after) ← readString rest
        return (.leaf (.newText s), after)
      | '[' =>
        match skipBlanks rest with
        | [] => stop .endOfList []
        | c :: more =>
          if charOf c = ']' then .ok (.list [], more)
          else if maxDepth ≤ level then stop .tooDeep (c :: more)
          else do
            let (items, after) ← readItems steps (level + 1) (c :: more)
            return (.list items, after)
      | '{' =>
        match skipBlanks rest with
        | [] => stop .endOfObject []
        | c :: more =>
          if charOf c = '}' then .ok (.map [], more)
          else if charOf c = '"' then
            do
              let (entries, after) ← readMembers steps (level + 1) more
              return (.map (Entries.ofList entries), after)
          else stop .keyExpected (c :: more)
      | _ => do
        let (v, after) ← readScalar (b :: rest)
        return (.leaf v, after)

/-- Reads the items of a list, of which there is at least one, and the closing bracket. -/
def readItems : Nat → Nat → Bytes → Except Stop (List (Tree String) × Bytes)
  | 0, _, text => stop .valueExpected text
  | steps + 1, level, text => do
    let (item, rest) ← readValue steps level text
    match skipBlanks rest with
    | [] => stop .endOfList []
    | b :: after =>
      if charOf b = ']' then return ([item], after)
      else if charOf b = ',' then
        match skipBlanks after with
        | [] => stop .endOfValue []
        | c :: more =>
          if charOf c = ']' then stop .trailingComma (c :: more)
          else
            let (items, after) ← readItems steps level (c :: more)
            return (item :: items, after)
      else stop .listEndExpected (b :: after)

/-- Reads the members of an object from behind the opening quote of the first key on, and the closing
bracket. -/
def readMembers : Nat → Nat → Bytes → Except Stop (List (String × Tree String) × Bytes)
  | 0, _, text => stop .valueExpected text
  | steps + 1, level, text => do
    let (key, rest) ← readKey text
    let first := skipBlanks rest
    if maxDepth < level then stop .tooDeep first
    else
      let (value, rest) ← readValue steps level first
      match skipBlanks rest with
      | [] => stop .endOfObject []
      | b :: after =>
        if charOf b = '}' then return ([(key, value)], after)
        else if charOf b = ',' then
          match skipBlanks after with
          | [] => stop .endOfValue []
          | c :: more =>
            if charOf c = '"' then
              let (members, after) ← readMembers steps level more
              return ((key, value) :: members, after)
            else if charOf c = '}' then stop .trailingComma (c :: more)
            else stop .keyExpected (c :: more)
        else stop .objectEndExpected (b :: after)

end

/-- Reads bytes that hold one value, between blanks. -/
def readWhole (bytes : Bytes) : Except Stop (Tree String) := do
  let (value, rest) ← readValue (2 * bytes.length + 2) 0 (skipBlanks bytes)
  match skipBlanks rest with
  | [] => return value
  | extra => stop .trailingCharacters extra

/-- The text of a stop: its reason, and the line and the column of its place.  A place at a line end
counts to the line after it, before its first column. -/
def Stop.text (bytes : Bytes) (s : Stop) : String :=
  let seen := bytes.take (bytes.length - s.left + (if s.left = 0 then 0 else 1))
  let isEnd := fun b : UInt8 => charOf b = '\n'
  let line := (seen.filter isEnd).length + 1
  let column := (seen.reverse.takeWhile (! isEnd ·)).length
  s.reason.text ++ " at line " ++ Decimal.digitsOf line ++ " column " ++ Decimal.digitsOf column

/-- Reads bytes as a document, or tells why they are none. -/
def read (bytes : Bytes) : Except String (Tree String) :=
  match readWhole bytes with
  | .ok t => .ok t
  | .error s => .error (s.text bytes)

end PageMeta.Json.Document
