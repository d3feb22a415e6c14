import PageMeta.Schema.Issue
import PageMeta.Schema.Basic
import PageMeta.Text.Class
import PageMeta.Text.Utf8
import PageMeta.Value.Basic

/-!
# Reading scalars

How a record field reads a value as text, truth value, integer or number.  Lenient reading takes a
text or byte string that spells a truth value or number for one, and lets numbers stand in for one
another where nothing is lost.  A value that has the type asked for is handed on as it is; anything
else is about to be made.
-/

namespace PageMeta.Schema

/-- Half the number of integers of 64 bits. -/
def wordHalf : Int := 0x8000000000000000

/-- Whether an integer has 64 bits, one of them for the sign. -/
def fitsWord (n : Int) : Bool := -wordHalf ≤ n && n < wordHalf

/-- The most digits an integer may be spelled with. -/
def maxDigits : Nat := 4300

/-- A text read from something else.  Short ones come from a pool that has each of them once. -/
def pooledText (s : String) : Value :=
  if s.utf8ByteSize < 2 then .ofText s
  else if s.utf8ByteSize < 64 then .text s .pooled
  else .newText s

/-- Reads a value as text. -/
def textOf (manner : Manner) (v : Value) : Except IssueKind Value :=
  match v, manner.source with
  | .text s _, .document => .ok (pooledText s)
  | .text _ _, _ | .feature _, .form => .ok v
  | .feature state, _ => .ok (pooledText state.text)
  | .bytes bs _, _ =>
    if manner.isLenient then
      match Text.decode bs with
      | .ok s => .ok (pooledText s)
      | .error _ => .error .textNotUnicode
    else .error .notText
  | _, _ => .error .notText

/-- Reads a value as text of at least `least` characters. -/
def readText (manner : Manner) (least : Nat) (v : Value) : Except IssueKind Value := do
  let w ← textOf manner v
  if (w.text?.getD "").length < least then .error (.textTooShort least) else .ok w

/-- The text that a text or byte string spells; `bad` is the complaint about bytes that spell
none. -/
def spelling? (bad : IssueKind) (v : Value) : Except IssueKind (Option String) :=
  match v with
  | .text s _ => .ok (some s)
  | .feature state => .ok (some state.text)
  | .bytes bs _ =>
    match Text.decode bs with
    | .ok s => .ok (some s)
    | .error _ => .error bad
  | _ => .ok none

/-- The words for false. -/
def falseWords : List String := ["0", "off", "f", "false", "n", "no"]

/-- The words for true. -/
def trueWords : List String := ["1", "on", "t", "true", "y", "yes"]

/-- Reads a word as a truth value; the case of ASCII letters does not matter. -/
def flagOfWord (s : String) : Option Bool :=
  let word := s.map Char.toLower
  if falseWords.contains word then some false
  else if trueWords.contains word then some true
  else none

/-- Reads an integer as a truth value. -/
def flagOfInt (n : Int) : Except IssueKind Bool :=
  if n = 0 then .ok false else if n = 1 then .ok true else .error .flagUnreadable

/-- Reads a double as an integer of 64 bits. -/
def wordOfReal (x : Binary64) : Except IssueKind Int :=
  if !x.isFinite then .error .notFinite
  else
    match x.toInt? with
    | none => .error .integerFraction
    | some n => if -wordHalf < n ∧ n < wordHalf then .ok n else .error .integerTooLong

/-- Reads a value as a truth value. -/
def readFlag (manner : Manner) (v : Value) : Except IssueKind Bool := do
  match v, manner.isLenient with
  | .bool b, _ => return b
  | _, false => .error .notFlag
  | .int n _, _ => if fitsWord n then flagOfInt n else .error .notFlag
  | .real x _, _ =>
    match wordOfReal x with
    | .ok n => flagOfInt n
    | .error _ => .error .notFlag
  | _, _ =>
    match ← spelling? .flagUnreadable v with
    | some s =>
      match flagOfWord s with
      | some b => return b
      | none => .error .flagUnreadable
    | none => .error .notFlag

/-- Whether two underscores meet, or one stands at an end. -/
def strayUnderscore (cs : List Char) : Bool :=
  cs.head? == some '_' || cs.getLast? == some '_' ||
    (cs.zip cs.tail).any fun p => p.1 == '_' && p.2 == '_'

/-- Whether a character is a digit but not zero. -/
def isLeadingDigit (c : Char) : Bool := c.isDigit && c != '0'

/-- What is left of the text of an integer once leading zeros are dropped, given the last
character dropped and the characters after it.  Underscores count as zeros there.  The text goes
on with a digit or a minus sign; before a point, and at the end, one zero is left. -/
def afterZeros (last : Char) : List Char → Option (List Char)
  | [] => some [last]
  | c :: rest =>
    if c = '0' || c = '_' then afterZeros c rest
    else if isLeadingDigit c || c = '-' then some (c :: rest)
    else if c = '.' then some (last :: c :: rest)
    else none

/-- Drops leading zeros. -/
def dropLeadingZeros : List Char → Option (List Char)
  | [] => none
  | c :: rest =>
    if c = '0' then afterZeros c rest
    else if isLeadingDigit c || c = '-' then some (c :: rest)
    else none

/-- Drops a point that zeros follow, at least one and nothing else. -/
def dropZeroFraction (cs : List Char) : List Char :=
  let whole := cs.takeWhile (· != '.')
  let fraction := cs.drop (whole.length + 1)
  if !fraction.isEmpty && fraction.all (· == '0') then whole else cs

/-- Drops underscores, unless one is stray. -/
def dropUnderscores (cs : List Char) : Option (List Char) :=
  if strayUnderscore cs then none else some (cs.filter (· != '_'))

/-- Drops a sign in front; a plus sign must not have a minus sign after it. -/
def splitSign : List Char → Option (Bool × List Char)
  | '+' :: '-' :: _ => none
  | '+' :: rest => some (false, rest)
  | '-' :: rest => some (true, rest)
  | cs => some (false, cs)

/-- An integer in its plain form: a minus sign or nothing, then a zero, or digits that do not
begin with one. -/
def plainInteger? (cs : List Char) : Option Int :=
  let (negative, digits) := match cs with
    | '-' :: rest => (true, rest)
    | rest => (false, rest)
  let n : Int := Decimal.natOf digits
  match digits with
  | [] => none
  | first :: rest =>
    if digits.length ≤ maxDigits && rest.all Char.isDigit &&
        (isLeadingDigit first || (first == '0' && rest.isEmpty)) then
      some (if negative then -n else n)
    else none

/-- Reads a spelled integer in its loose form: blanks around it, a sign, leading zeros, single
underscores between digits, and a fraction of zeros.  A minus sign may stand behind the leading
zeros too. -/
def looseInteger? (cs : List Char) : Option Int := do
  let (negative, body) ← splitSign (Text.trim cs)
  let number ← dropLeadingZeros body
  let digits ← dropUnderscores (dropZeroFraction number)
  plainInteger? (if negative then '-' :: digits else digits)

/-- Whether a text begins with more digits than an integer may have. -/
def beginsTooLong (cs : List Char) : Bool :=
  let sign := cs.takeWhile (· == '-')
  let digits := (cs.drop sign.length).takeWhile Char.isDigit
  sign.length ≤ 1 && (digits.head?.any isLeadingDigit) && maxDigits < digits.length

/-- Reads a spelled integer. -/
def integerOfText (s : String) : Except IssueKind Int :=
  if beginsTooLong s.toList then .error .integerTooLong
  else
    match looseInteger? s.toList with
    | some n => .ok n
    | none => .error .integerUnreadable

/-- A minus sign behind a zero counts. -/
example : looseInteger? " 0-7_0.00 ".toList = some (-70) := by decide +kernel

/-- Reads a value as an integer. -/
def readInteger (manner : Manner) (v : Value) : Except IssueKind Value := do
  match v, manner.isLenient with
  | .int _ _, _ => return v
  | _, false => .error .notInteger
  | .bool b, _ => return .ofInt (if b then 1 else 0)
  | .real x _, _ => .newInt <$> wordOfReal x
  | _, _ =>
    match ← spelling? .integerUnreadable v with
    | some s => .newInt <$> integerOfText s
    | none => .error .notInteger

/-- Reads the name of an infinity or of the not-a-number. -/
def namedReal? (cs : List Char) : Option Binary64 :=
  let (negative, body) := match cs with
    | '-' :: rest => (true, rest)
    | '+' :: rest => (false, rest)
    | rest => (false, rest)
  let word := String.ofList (body.map Char.toLower)
  if word = "inf" ∨ word = "infinity" then some (.infinite negative)
  else if word = "nan" then some .nan
  else none

/-- Reads a decimal or a name. -/
def plainReal? (cs : List Char) : Option Binary64 := (Decimal.read? cs).or (namedReal? cs)

/-- Reads a spelled number: a decimal or a name with blanks around it, or one without blanks that
has single underscores in it. -/
def realOfText (s : String) : Except IssueKind Binary64 :=
  let joined := (dropUnderscores s.toList).bind plainReal?
  match (plainReal? (Text.trim s.toList)).or joined with
  | some x => .ok x
  | none => .error .numberUnreadable

/-- A number about to be made. -/
def newReal (x : Binary64) : Value := .real x .pending

/-- Reads an integer as a number.  What is too large for one is infinite in a document. -/
def realOfInt (manner : Manner) (n : Int) : Except IssueKind Value :=
  match Binary64.ofInt n, manner.source with
  | .infinite _, .program => .error .notNumber
  | x, _ => .ok (newReal x)

/-- Reads a value as a number. -/
def readNumber (manner : Manner) (v : Value) : Except IssueKind Value := do
  match v, manner.isLenient with
  | .real _ _, _ => return v
  | .int n _, _ => realOfInt manner n
  | _, false => .error .notNumber
  | .bool b, _ => return newReal (Binary64.ofInt (if b then 1 else 0))
  | _, _ =>
    match ← spelling? .numberUnreadable v with
    | some s => newReal <$> realOfText s
    | none => .error .notNumber

/-- Checks an integer against bounds. -/
def boundInteger (least most : Option Int) (v : Value) : Except IssueKind Value :=
  let n := v.integer?.getD 0
  match most.filter (· < n), least.filter (n < ·) with
  | some b, _ => .error (.aboveBound (Decimal.ofInt b))
  | none, some b => .error (.belowBound (Decimal.ofInt b))
  | none, none => .ok v

/-- Whether a number is not known to be at most an integer; a not-a-number never is. -/
def isAbove (x : Binary64) (b : Int) : Bool := !x.le (Binary64.ofInt b)

/-- Whether a number is not known to be at least an integer; a not-a-number never is. -/
def isBelow (x : Binary64) (b : Int) : Bool := !(Binary64.ofInt b).le x

/-- Checks a number against bounds. -/
def boundNumber (least most : Option Int) (v : Value) : Except IssueKind Value :=
  match v with
  | .real x _ =>
    match most.filter (isAbove x), least.filter (isBelow x) with
    | some b, _ => .error (.aboveBound (Decimal.ofInt b))
    | none, some b => .error (.belowBound (Decimal.ofInt b))
    | none, none => .ok v
  | _ => .ok v

/-- A text that a program has is read as itself. -/
theorem readText_text (s : String) (mark : Mark) :
    readText .usual 0 (.text s mark) = .ok (.text s mark) := by
  simp [readText, textOf, Manner.usual, bind, Except.bind]

end PageMeta.Schema
