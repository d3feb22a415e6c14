import PageMeta.Numeric.Decimal
import PageMeta.Value.Tree

/-!
# Writing JSON

Writes a tree as JSON, on one line or over several.  Over several lines every item and member stands
on a line of its own, indented by some spaces per level; an empty list or map takes no lines.  All
characters are written as they are but the quote, the backslash and control characters, and, if only
ASCII is wanted, all others.

A `Style` makes these choices: `Style.report` for reports on settings, `Style.record` for records.
-/

namespace PageMeta.Json

/-- How JSON is written. -/
structure Style where
  /-- How many spaces indent a level; nothing if all stands on one line. -/
  indent? : Option Nat
  /-- Whether characters beyond ASCII are escaped. -/
  isAscii : Bool
  /-- How doubles are written that are numbers. -/
  layout : Decimal.Layout
  /-- Whether doubles that are no numbers have names. -/
  hasNames : Bool

/-- Reports on settings indent a level by two spaces. -/
def Style.report : Style :=
  { indent? := some 2, isAscii := false, hasNames := true,
    layout := { Decimal.Layout.plain with nan := "NaN", infinity := "Infinity" } }

/-- Records write small doubles positionally down to `10 ^ -5`, and no double that is no number. -/
def Style.record (indent? : Option Nat) (isAscii : Bool) : Style :=
  { indent?, isAscii, hasNames := false,
    layout := { Decimal.Layout.plain with lowest := -5, exponentWidth := 1 } }

/-- The letters that stand for characters after a backslash. -/
def escapeLetters : List (Char × Char) :=
  [('"', '"'), ('\\', '\\'), ('\n', 'n'), ('\r', 'r'), ('\t', 't'), ('\x0c', 'f'), ('\x08', 'b')]

/-- Four hexadecimal digits. -/
def hexFour (n : Nat) : List Char :=
  let digits := Nat.toDigits 16 n
  List.replicate (4 - digits.length) '0' ++ digits

/-- The escape of a code unit. -/
def escapeUnit (unit : Nat) : List Char := '\\' :: 'u' :: hexFour unit

/-- The escape of a character, which takes two code units beyond the first plane. -/
def escapeChar (c : Char) : List Char :=
  let n := c.toNat
  if n < 0x10000 then escapeUnit n
  else
    escapeUnit (0xd800 + (n - 0x10000) / 0x400) ++ escapeUnit (0xdc00 + (n - 0x10000) % 0x400)

/-- One character inside a string. -/
def Style.writeChar (style : Style) (c : Char) : List Char :=
  match escapeLetters.lookup c with
  | some letter => ['\\', letter]
  | none =>
    if c.toNat < 0x20 || (style.isAscii && 0x80 ≤ c.toNat) then escapeChar c else [c]

/-- A string. -/
def Style.writeString (style : Style) (s : String) : String :=
  String.ofList ('"' :: s.toList.flatMap style.writeChar ++ ['"'])

/-- A scalar; what is no scalar has no form of its own. -/
def Style.writeScalar (style : Style) : Value → String
  | .bool b => if b then "true" else "false"
  | .int n _ => Decimal.ofInt n
  | .real x _ => if x.isFinite || style.hasNames then style.layout.write x else "null"
  | .text s _ => style.writeString s
  | _ => "null"

/-- The start of a line at a level. -/
def newLine (indent level : Nat) : String :=
  "\n" ++ String.ofList (List.replicate (indent * level) ' ')

/-- Parts between two brackets. -/
def Style.writeBlock (style : Style) (opening closing : String) (level : Nat)
    (parts : List String) : String :=
  match style.indent?, parts with
  | _, [] => opening ++ closing
  | none, parts => opening ++ String.intercalate "," parts ++ closing
  | some indent, parts =>
    opening ++ newLine indent (level + 1) ++
      String.intercalate ("," ++ newLine indent (level + 1)) parts ++ newLine indent level ++
      closing

/-- What stands between a name and its value. -/
def Style.colon (style : Style) : String := if style.indent?.isSome then ": " else ":"

mutual

/-- A tree at a level. -/
def Style.writeAt (style : Style) (level : Nat) : Tree String → String
  | .leaf v => style.writeScalar v
  | .list items => style.writeBlock "[" "]" level (style.writeItems (level + 1) items)
  | .map entries =>
    style.writeBlock "\x7b" "\x7d" level (style.writeMembers (level + 1) entries)

/-- The items of a list. -/
def Style.writeItems (style : Style) (level : Nat) : List (Tree String) → List String
  | [] => []
  | t :: rest => style.writeAt level t :: style.writeItems level rest

/-- The members of a map. -/
def Style.writeMembers (style : Style) (level : Nat) : List (String × Tree String) → List String
  | [] => []
  | (key, t) :: rest =>
    (style.writeString key ++ style.colon ++ style.writeAt level t) ::
      style.writeMembers level rest

end

/-- A tree. -/
def Style.write (style : Style) (t : Tree String) : String := style.writeAt 0 t

example : Style.report.write (.map [("a", .list [.leaf (.ofInt 1), .list []])]) =
    "\x7b\n  \"a\": [\n    1,\n    []\n  ]\n\x7d" := by decide +kernel

example : (Style.record none true).write (.map [("é", .leaf .none)]) =
    "\x7b\"\\u00e9\":null\x7d" := by decide +kernel

end PageMeta.Json
