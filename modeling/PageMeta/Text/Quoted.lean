import PageMeta.Text.Printable

/-!
# Quoted text

Text and byte strings as they appear inside the written form of a value: between quote marks,
with the mark, the backslash and everything that cannot be shown written as an escape.

The mark is the single quote, unless the text has a single quote and no double quote.

* `quote` writes text, `quoteBytes` a byte string.
* `escape` says what becomes of one character.
-/

namespace PageMeta.Text

/-- The single quote. -/
def singleQuote : Char := '\x27'

/-- The double quote. -/
def doubleQuote : Char := '\x22'

/-- The backslash. -/
def backslash : Char := '\x5c'

/-- A number in lower-case hexadecimal, with at least `width` digits. -/
def hex (width n : Nat) : List Char :=
  let digits := Nat.toDigits 16 n
  List.replicate (width - digits.length) '0' ++ digits

/-- The mark that goes around a text. -/
def markFor (text : List Char) : Char :=
  if text.contains singleQuote && !text.contains doubleQuote then doubleQuote else singleQuote

/-- What a text with mark `mark` shows for one character. -/
def escape (mark c : Char) : List Char :=
  if c = mark ∨ c = backslash then [backslash, c]
  else if c = '\n' then [backslash, 'n']
  else if c = '\r' then [backslash, 'r']
  else if c = '\t' then [backslash, 't']
  else if isPrintable c then [c]
  else if c.toNat < 0x100 then backslash :: 'x' :: hex 2 c.toNat
  else if c.toNat < 0x10000 then backslash :: 'u' :: hex 4 c.toNat
  else backslash :: 'U' :: hex 8 c.toNat

/-- Characters between two marks. -/
def quoteChars (text : List Char) : List Char :=
  let mark := markFor text
  mark :: text.flatMap (escape mark) ++ [mark]

/-- A text between two marks. -/
def quote (text : String) : String := String.ofList (quoteChars text.toList)

/-- What a byte string with mark `mark` shows for one byte: all but printable ASCII is written
in hexadecimal. -/
def escapeByte (mark : Char) (b : UInt8) : List Char :=
  if b.toNat < 0x7f then escape mark (Char.ofNat b.toNat)
  else backslash :: 'x' :: hex 2 b.toNat

/-- A byte string between two marks, after the letter that sets it apart from text. -/
def quoteBytes (bytes : List UInt8) : String :=
  let mark := markFor (bytes.map fun b => Char.ofNat b.toNat)
  String.ofList ('b' :: mark :: bytes.flatMap (escapeByte mark) ++ [mark])

/-- A printable character that is neither the mark nor the backslash is shown as it is. -/
theorem escape_of_isPrintable (mark c : Char) (hp : isPrintable c = true) (hm : c ≠ mark)
    (hb : c ≠ backslash) : escape mark c = [c] := by
  have hn : c ≠ '\n' := fun h => absurd (h ▸ hp) (by decide)
  have hr : c ≠ '\r' := fun h => absurd (h ▸ hp) (by decide)
  have ht : c ≠ '\t' := fun h => absurd (h ▸ hp) (by decide)
  simp [escape, hm, hb, hn, hr, ht, hp]

example : quoteChars "it's".toList = "\"it's\"".toList := by decide +kernel

example : quoteChars "a\n".toList = "'a\\n'".toList := by decide +kernel

end PageMeta.Text
