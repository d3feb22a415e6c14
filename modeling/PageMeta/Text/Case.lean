import PageMeta.Text.CaseTables
import PageMeta.Text.Class
import PageMeta.Text.LetterTables

/-!
# Upper and lower case

Texts in upper and in lower case, and what characters are in words: letters of either case, digits,
numerals and parts of names.

* `upper`, `lower`, `titled`, `capitalize`, `swapCase` and `fold` give a text in another case.
* `isLower`, `isUpper` and `isTitle` tell the case of a letter.
-/

namespace PageMeta.Text

/-! ## Looking up -/

/-- Searches the runs with index in `[lo, hi)`. -/
def findShift (runs : Array Shift) (n : Nat) : Nat → Nat → Nat → Option Shift
  | 0, _, _ => none
  | steps + 1, lo, hi =>
    if hi ≤ lo then none
    else
      let mid := (lo + hi) / 2
      match runs[mid]? with
      | none => none
      | some run =>
        if n < run.first then findShift runs n steps lo mid
        else if run.last < n then findShift runs n steps (mid + 1) hi
        else if (n - run.first) % run.step = 0 then some run
        else none

/-- The run that has a code point.  Runs can reach into one another, so that the runs next to the one
found are looked at too. -/
def runOf? (runs : Array Shift) (n : Nat) : Option Shift :=
  (findShift runs n (runs.size + 1) 0 runs.size).or
    (runs.find? fun run => run.first ≤ n && n ≤ run.last && (n - run.first) % run.step == 0)

/-- A code point shifted by the run that has it. -/
def shift? (runs : Array Shift) (c : Char) : Option Char :=
  (runOf? runs c.toNat).map fun run => Char.ofNat ((c.toNat : Int) + run.distance).toNat

/-- The letters that a letter becomes. -/
def several? (table : Array (Nat × List Nat)) (c : Char) : Option (List Char) :=
  (table.find? (·.1 == c.toNat)).map fun p => p.2.map Char.ofNat

/-- Whether a character is ASCII. -/
def isAscii (c : Char) : Bool := c.toNat < 0x80

/-- The first of several forms of a letter, or the letter itself. -/
def firstForm (c : Char) (forms : List (Option (List Char))) : List Char :=
  (forms.findSome? id).getD [c]

/-- A letter in upper case. -/
def upperOf (c : Char) : List Char :=
  if isAscii c then [c.toUpper]
  else firstForm c [several? upperSeveral c, (shift? upperShifts c).map fun d => [d]]

/-- A letter in lower case. -/
def lowerOf (c : Char) : List Char :=
  if isAscii c then [c.toLower]
  else firstForm c [several? lowerSeveral c, (shift? lowerShifts c).map fun d => [d]]

/-- A letter as it begins a word. -/
def titleOf (c : Char) : List Char :=
  if isAscii c then [c.toUpper]
  else
    firstForm c [several? titleSeveral c, (shift? titleShifts c).map fun d => [d],
      some (upperOf c)]

/-- A letter as it is compared. -/
def foldOf (c : Char) : List Char :=
  if isAscii c then [c.toLower]
  else
    firstForm c [several? foldSeveral c, (shift? foldShifts c).map fun d => [d],
      some (lowerOf c)]

/-! ## Properties -/

/-- Whether a letter is of lower case. -/
def isLower (c : Char) : Bool :=
  if isAscii c then c.isLower else (runOf? lowerRuns c.toNat).isSome

/-- Whether a letter is of upper case. -/
def isUpper (c : Char) : Bool :=
  if isAscii c then c.isUpper else (runOf? upperRuns c.toNat).isSome

/-- Whether a letter has the form that begins a word. -/
def isTitle (c : Char) : Bool := isIn titleRanges c.toNat

/-- Whether a letter is of upper case or begins a word. -/
def isRaised (c : Char) : Bool := isUpper c || isTitle c

/-- Whether a letter has a case. -/
def isCased (c : Char) : Bool := isLower c || isRaised c

/-- Whether a character is alphabetic. -/
def isAlphabetic (c : Char) : Bool :=
  if isAscii c then c.isAlpha else isIn alphabeticRanges c.toNat

/-- Whether a character is a digit, raised ones included. -/
def isDigit (c : Char) : Bool := isDecimalDigit c || isIn digitFormRanges c.toNat

/-- Whether a character is a numeral. -/
def isNumeric (c : Char) : Bool := isDecimalDigit c || isIn numeralRanges c.toNat

/-- Whether a character is alphabetic or a numeral. -/
def isAlphanumeric (c : Char) : Bool := isAlphabetic c || isDigit c || isNumeric c

/-- Whether a character can begin a name. -/
def isNameStart (c : Char) : Bool :=
  c = '_' || (isAlphabetic c && !isIn nameForbiddenRanges c.toNat) || isIn nameStartRanges c.toNat

/-- Whether a character can continue a name. -/
def isNameRest (c : Char) : Bool := isNameStart c || isIn nameRestRanges c.toNat

/-- Whether a text is a name. -/
def isIdentifier : List Char → Bool
  | [] => false
  | c :: rest => isNameStart c && rest.all isNameRest

/-! ## Texts -/

/-- A text in upper case. -/
def upper (s : List Char) : List Char := s.flatMap upperOf

/-- The capital letter that has two forms in lower case. -/
def capitalSigma : Char := '\u03a3'

/-- A text in lower case; `before` is the character in front.  One letter has a form of its own at the
end of a word. -/
def lowerFrom (before : Option Char) : List Char → List Char
  | [] => []
  | c :: rest =>
    let own :=
      if c = capitalSigma && before.any isCased && !rest.head?.any isCased then ['\u03c2']
      else lowerOf c
    own ++ lowerFrom (some c) rest

/-- A text in lower case. -/
def lower (s : List Char) : List Char := lowerFrom none s

/-- A text as it is compared. -/
def fold (s : List Char) : List Char := s.flatMap foldOf

/-- A text that begins like a word and goes on in lower case. -/
def capitalize : List Char → List Char
  | [] => []
  | c :: rest => titleOf c ++ lowerFrom (some c) rest

/-- A text in which every word begins like one; `inWord` says whether a cased letter is in front. -/
def titledFrom (inWord : Bool) : List Char → List Char
  | [] => []
  | c :: rest => (if inWord then lowerOf c else titleOf c) ++ titledFrom (isCased c) rest

/-- A text in which every word begins like one. -/
def titled (s : List Char) : List Char := titledFrom false s

/-- A text with the cases of its letters swapped. -/
def swapCase (s : List Char) : List Char :=
  s.flatMap fun c => if isUpper c then lowerOf c else if isLower c then upperOf c else [c]

/-- Whether the words of a text begin like words and go on in lower case; `inWord` as above, and
`seen` says whether there was a word. -/
def isTitledFrom (inWord seen : Bool) : List Char → Bool
  | [] => seen
  | c :: rest =>
    if isRaised c then !inWord && isTitledFrom true true rest
    else if isLower c then inWord && isTitledFrom true true rest
    else isTitledFrom false seen rest

/-- Whether the words of a text begin like words and go on in lower case. -/
def isTitled (s : List Char) : Bool := isTitledFrom false false s

example : upper "straße".toList = "STRASSE".toList := by decide +kernel

end PageMeta.Text
