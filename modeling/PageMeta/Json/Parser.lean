import PageMeta.Json.Fault
import PageMeta.Value.Tree

/-!
# Reading JSON

Reads a text as a tree.  `NaN`, `Infinity` and `-Infinity` are read as numbers, numbers with a
fraction or an exponent as doubles and all others as integers.  An object keeps a repeated key
where it came first, with the value that came last.

Every reader takes the text that is left and gives what it read together with the text after it.
A refusal likewise names its place by the text that is left there.
-/

namespace PageMeta.Json

/-- Why a text cannot be read. -/
inductive Refusal where
  /-- What is wrong, and the text that is left at the place of it. -/
  | fault (reason : FaultReason) (rest : List Char)
  /-- An integer has too many digits. -/
  | numberTooLong (digits : Nat)
deriving DecidableEq, Repr

/-- Refuses a text. -/
def refuse {α : Type} (reason : FaultReason) (rest : List Char) : Except Refusal α :=
  .error (.fault reason rest)

/-- Whether a character may stand between tokens. -/
def isBlank (c : Char) : Bool := c = ' ' || c = '\t' || c = '\n' || c = '\r'

/-- Drops the blanks in front. -/
def skipBlanks (text : List Char) : List Char := text.dropWhile isBlank

/-- Drops a given beginning. -/
def skip? : List Char → List Char → Option (List Char)
  | [], text => some text
  | c :: word, d :: text => if c = d then skip? word text else none
  | _ :: _, [] => none

/-- A beginning is dropped exactly when it is there. -/
theorem skip?_eq_some_iff {word text rest : List Char} :
    skip? word text = some rest ↔ text = word ++ rest := by
  induction word generalizing text with
  | nil => simp [skip?]
  | cons c word ih =>
    cases text with
    | nil => simp [skip?]
    | cons d text =>
      by_cases h : c = d
      · subst h
        simp [skip?, ih]
      · simp [skip?, h, Ne.symm h]

/-! ## Numbers -/

/-- The most digits an integer may have. -/
def maxDigits : Nat := 4300

/-- Splits off the whole part of a number: a zero, or digits that do not begin with one. -/
def spanWhole : List Char → List Char × List Char
  | '0' :: rest => (['0'], rest)
  | text => Decimal.spanDigits text

/-- Splits off a fraction, if a point with a digit after it comes next. -/
def spanFraction : List Char → List Char × List Char
  | '.' :: rest =>
    let (digits, after) := Decimal.spanDigits rest
    if digits.isEmpty then ([], '.' :: rest) else ('.' :: digits, after)
  | text => ([], text)

/-- Splits off a sign. -/
def spanSign : List Char → List Char × List Char
  | '-' :: rest => (['-'], rest)
  | '+' :: rest => (['+'], rest)
  | text => ([], text)

/-- Splits off an exponent, if a letter `e` with a number after it comes next. -/
def spanExponent : List Char → List Char × List Char
  | c :: rest =>
    if c = 'e' ∨ c = 'E' then
      let (sign, unsigned) := spanSign rest
      let (digits, after) := Decimal.spanDigits unsigned
      if digits.isEmpty then ([], c :: rest) else (c :: sign ++ digits, after)
    else ([], c :: rest)
  | [] => ([], [])

/-- Reads a number. -/
def readNumber (text : List Char) : Except Refusal (Value × List Char) :=
  let negative := text.head? == some '-'
  let (whole, afterWhole) := spanWhole (if negative then text.drop 1 else text)
  let (fraction, afterFraction) := spanFraction afterWhole
  let (exponent, rest) := spanExponent afterFraction
  if whole.isEmpty then refuse .expectingValue text
  else if fraction.isEmpty && exponent.isEmpty then
    if maxDigits < whole.length then .error (.numberTooLong whole.length)
    else
      let n : Int := Decimal.natOf whole
      .ok (.newInt (if negative then -n else n), rest)
  else
    match Decimal.unsigned? negative (whole ++ fraction ++ exponent) with
    | some x => .ok (.real x .pending, rest)
    | none => refuse .expectingValue text

/-- The literals.  Each of them stands for one and the same object. -/
def literals : List (String × Value) :=
  [("null", .none), ("true", .bool true), ("false", .bool false), ("NaN", .real .nan .shared),
   ("Infinity", .real (.infinite false) .shared),
   ("-Infinity", .real (.infinite true) .shared)]

/-- Reads a literal or a number. -/
def readScalar (text : List Char) : Except Refusal (Value × List Char) :=
  let found := literals.findSome? fun p => (skip? p.1.toList text).map fun rest => (p.2, rest)
  match found with
  | some read => .ok read
  | none => readNumber text

/-! ## Strings -/

/-- The number of a hexadecimal digit. -/
def hexDigit? (c : Char) : Option Nat :=
  if '0' ≤ c ∧ c ≤ '9' then some (c.toNat - '0'.toNat)
  else if 'a' ≤ c ∧ c ≤ 'f' then some (c.toNat - 'a'.toNat + 10)
  else if 'A' ≤ c ∧ c ≤ 'F' then some (c.toNat - 'A'.toNat + 10)
  else none

/-- The number of four hexadecimal digits that are not the end of the text. -/
def fourDigits? : List Char → Option Nat
  | a :: b :: c :: d :: _ :: _ => do
    let a ← hexDigit? a
    let b ← hexDigit? b
    let c ← hexDigit? c
    let d ← hexDigit? d
    return ((a * 16 + b) * 16 + c) * 16 + d
  | _ => none

/-- Whether a code unit is the first half of a pair. -/
def isHighHalf (unit : Nat) : Bool := 0xd800 ≤ unit && unit < 0xdc00

/-- Whether a code unit is the second half of a pair. -/
def isLowHalf (unit : Nat) : Bool := 0xdc00 ≤ unit && unit < 0xe000

/-- The character of a code unit; half a pair stands for the replacement character. -/
def ofUnit (unit : Nat) : Char :=
  if isHighHalf unit || isLowHalf unit then '\ufffd' else Char.ofNat unit

/-- The character of a pair of code units. -/
def ofPair (high low : Nat) : Char :=
  Char.ofNat (0x10000 + (high - 0xd800) * 0x400 + (low - 0xdc00))

/-- Reads the digits of a numeric escape, from the letter `u` on.  Gives the character, and how
many characters of the text it takes: five, or eleven for a pair. -/
def readUnit (text : List Char) : Except Refusal (Char × Nat) :=
  match fourDigits? (text.drop 1) with
  | none => refuse .invalidUnicodeEscape text
  | some unit =>
    match isHighHalf unit, text.drop 5 with
    | true, '\\' :: 'u' :: more =>
      match fourDigits? more with
      | some low => .ok (if isLowHalf low then (ofPair unit low, 11) else (ofUnit unit, 5))
      | none => if more.length < 5 then .ok (ofUnit unit, 5)
        else refuse .invalidUnicodeEscape ('u' :: more)
    | _, _ => .ok (ofUnit unit, 5)

/-- The characters that a backslash and a letter stand for. -/
def letterEscapes : List (Char × Char) :=
  [('"', '"'), ('\\', '\\'), ('/', '/'), ('b', '\x08'), ('f', '\x0c'), ('n', '\n'), ('r', '\r'),
   ('t', '\t')]

/-- Reads an escape, from the character after the backslash on: the character it stands for, and
how many characters it takes after the backslash. -/
def readEscape (c : Char) (rest : List Char) : Except Refusal (Char × Nat) :=
  if c = 'u' then readUnit (c :: rest)
  else
    match letterEscapes.lookup c with
    | some meant => .ok (meant, 1)
    | none => refuse .invalidEscape ('\\' :: c :: rest)

/-- Reads the characters of a string up to the closing quote.  `opening` is the text from the
opening quote on. -/
def readCharacters (opening text : List Char) : Except Refusal (List Char × List Char) :=
  match text with
  | [] => refuse .unterminatedString opening
  | '"' :: rest => .ok ([], rest)
  | '\\' :: [] => refuse .unterminatedString opening
  | '\\' :: c :: rest => do
    let (meant, size) ← readEscape c rest
    let (chars, after) ← readCharacters opening ((c :: rest).drop size)
    return (meant :: chars, after)
  | c :: rest =>
    if c.toNat < 0x20 then refuse .invalidControl (c :: rest)
    else do
      let (chars, after) ← readCharacters opening rest
      return (c :: chars, after)
termination_by text.length
decreasing_by all_goals simp_all; try omega

/-- Reads a string; the opening quote comes first. -/
def readString (text : List Char) : Except Refusal (String × List Char) := do
  let (chars, rest) ← readCharacters text (text.drop 1)
  return (String.ofList chars, rest)

/-! ## Values -/

mutual

/-- Reads a value with at most `steps` nested or consecutive parts. -/
def readValue : Nat → List Char → Except Refusal (Tree String × List Char)
  | 0, text => refuse .expectingValue text
  | steps + 1, text =>
    match text with
    | '"' :: _ => do
      let (s, rest) ← readString text
      return (.leaf (.newText s), rest)
    | '{' :: rest =>
      match skipBlanks rest with
      | '}' :: after => .ok (.map [], after)
      | members => do
        let (entries, after) ← readMembers steps members
        return (.map (Entries.ofList entries), after)
    | '[' :: rest =>
      match skipBlanks rest with
      | ']' :: after => .ok (.list [], after)
      | items => do
        let (trees, after) ← readItems steps items
        return (.list trees, after)
    | _ => do
      let (v, rest) ← readScalar text
      return (.leaf v, rest)

/-- Reads the items of an array, of which there is at least one, and the closing bracket. -/
def readItems : Nat → List Char → Except Refusal (List (Tree String) × List Char)
  | 0, text => refuse .expectingValue text
  | steps + 1, text => do
    let (item, rest) ← readValue steps text
    match skipBlanks rest with
    | ']' :: after => return ([item], after)
    | ',' :: after => do
      let (items, after) ← readItems steps (skipBlanks after)
      return (item :: items, after)
    | after => refuse .expectingComma after

/-- Reads the members of an object, of which there is at least one, and the closing bracket. -/
def readMembers : Nat → List Char → Except Refusal (List (String × Tree String) × List Char)
  | 0, text => refuse .expectingName text
  | steps + 1, text =>
    match text with
    | '"' :: _ => do
      let (name, rest) ← readString text
      match skipBlanks rest with
      | ':' :: rest => do
        let (value, rest) ← readValue steps (skipBlanks rest)
        match skipBlanks rest with
        | '}' :: after => return ([(name, value)], after)
        | ',' :: after => do
          let (members, after) ← readMembers steps (skipBlanks after)
          return ((name, value) :: members, after)
        | after => refuse .expectingComma after
      | after => refuse .expectingColon after
    | _ => refuse .expectingName text

end

/-- Reads a text that holds one value, between blanks. -/
def readDocument (text : List Char) : Except Refusal (Tree String) :=
  if text.head? == some '\ufeff' then refuse .byteOrderMark text
  else do
    let (value, rest) ← readValue (2 * text.length + 2) (skipBlanks text)
    match skipBlanks rest with
    | [] => return value
    | extra => refuse .extraData extra

/-- The fault of a refusal, with its place in the text. -/
def Refusal.locate (text : List Char) (reason : FaultReason) (rest : List Char) : Fault :=
  Fault.at text reason (text.length - rest.length)

end PageMeta.Json
