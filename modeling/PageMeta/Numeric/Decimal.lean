import PageMeta.Numeric.Binary64

/-!
# Decimal text of doubles

Writing uses the fewest significant digits that read back as the same double and, of those, the
ones nearest to it.  `shortest` finds them: for one, two, … seventeen digits it looks at the two
points of that decimal grid around the value, and the first grid with a point that reads back
wins.

`Layout` holds the decisions of a written form.  `Layout.plain` is the one this library writes:
positional from `10 ^ -4` up to below `10 ^ 16`, with a fractional part always shown, and an
exponent of at least two digits elsewhere.

Reading takes digits, an optional fraction and an optional exponent, and rounds once.
-/

namespace PageMeta.Decimal

/-- The decimal digits of a natural number, as text. -/
def digitsOf (n : Nat) : String := String.ofList (Nat.toDigits 10 n)

/-- An integer in decimal. -/
def ofInt (n : Int) : String :=
  if n < 0 then "-" ++ digitsOf n.natAbs else digitsOf n.natAbs

/-- Number of decimal digits. -/
def digitCount (n : Nat) : Nat := (Nat.toDigits 10 n).length

/-- Decimal exponent of the leading digit of a magnitude given in units. -/
def leadingExponent (units : Nat) : Int :=
  (digitCount (units * Nat.pow 10 400 / Binary64.unitsPerOne) : Int) - 401

/-- Units in `digits * 10 ^ exponent`, rounded as reading rounds. -/
def readUnits (digits : Nat) (exponent : Int) : Nat :=
  if 0 ≤ exponent then Binary64.roundUnits (digits * Nat.pow 10 exponent.toNat) 1
  else Binary64.roundUnits digits (Nat.pow 10 exponent.natAbs)

/-- The point of the grid of `10 ^ exponent` that reads back as `units`: the nearer of the two
around the value, and of two equally near ones the even one. -/
def gridPoint? (units : Nat) (exponent : Int) : Option Nat :=
  let num := if 0 ≤ exponent then units else units * Nat.pow 10 exponent.natAbs
  let den :=
    if 0 ≤ exponent then Binary64.unitsPerOne * Nat.pow 10 exponent.toNat else Binary64.unitsPerOne
  let below := num / den
  let near := Binary64.roundEven num den
  let far := if near = below then below + 1 else below
  if readUnits near exponent = units then some near
  else if readUnits far exponent = units then some far
  else none

/-- Searches the grids from coarse to fine, `count` of them. -/
def search (units : Nat) (exponent : Int) : Nat → Nat × Int
  | 0 => (0, 0)
  | count + 1 =>
    match gridPoint? units exponent with
    | some digits => (digits, exponent)
    | none => search units (exponent - 1) count

/-- The fewest digits that read back, and the exponent of the last of them. -/
def shortest (units : Nat) : Nat × Int := search units (leadingExponent units) 18

/-- The decisions of a written form of doubles. -/
structure Layout where
  /-- Least exponent of the leading digit that is written positionally. -/
  lowest : Int
  /-- Least exponent of the leading digit above that range. -/
  beyond : Int
  /-- What follows a whole number in positional form. -/
  wholeMark : String
  /-- Least number of digits of an exponent. -/
  exponentWidth : Nat
  /-- Text of a not-a-number. -/
  nan : String
  /-- Text of an infinity, without sign. -/
  infinity : String

/-- Text of a value: positional from `10 ^ -4` to below `10 ^ 16`. -/
def Layout.plain : Layout := ⟨-4, 16, ".0", 2, "nan", "inf"⟩

/-- Drops the zeros at the end of a list of digits, but not the first digit. -/
def trimZeros (digits : List Char) : List Char :=
  match (digits.reverse.dropWhile (· == '0')).reverse with
  | [] => ['0']
  | kept => kept

/-- Pads on the left with zeros. -/
def padLeft (width : Nat) (digits : List Char) : List Char :=
  List.replicate (width - digits.length) '0' ++ digits

/-- Positional form of the digits `ds`, the first of which has exponent `lead`. -/
def Layout.positional (layout : Layout) (ds : List Char) (lead : Int) : String :=
  if lead < 0 then
    String.ofList ('0' :: '.' :: List.replicate (lead.natAbs - 1) '0' ++ ds)
  else
    let whole := lead.toNat + 1
    if ds.length ≤ whole then
      String.ofList (ds ++ List.replicate (whole - ds.length) '0') ++ layout.wholeMark
    else String.ofList (ds.take whole ++ '.' :: ds.drop whole)

/-- Exponent form of the digits `ds`, the first of which has exponent `lead`. -/
def Layout.scientific (layout : Layout) (ds : List Char) (lead : Int) : String :=
  let mantissa := match ds with
    | [] => []
    | [d] => [d]
    | d :: rest => d :: '.' :: rest
  let sign := if lead < 0 then '-' else '+'
  String.ofList
    (mantissa ++ 'e' :: sign :: padLeft layout.exponentWidth (Nat.toDigits 10 lead.natAbs))

/-- Written form of a magnitude in units. -/
def Layout.magnitude (layout : Layout) (units : Nat) : String :=
  if units = 0 then layout.positional ['0'] 0
  else
    let (digits, exponent) := shortest units
    let ds := Nat.toDigits 10 digits
    let lead := exponent + ((ds.length : Int) - 1)
    if layout.lowest ≤ lead ∧ lead < layout.beyond then layout.positional (trimZeros ds) lead
    else layout.scientific (trimZeros ds) lead

/-- Written form of a double. -/
def Layout.write (layout : Layout) : Binary64 → String
  | .nan => layout.nan
  | .infinite negative => (if negative then "-" else "") ++ layout.infinity
  | .finite negative units => (if negative then "-" else "") ++ layout.magnitude units

/-! ## Reading -/

/-- The natural number written by decimal digits. -/
def natOf (digits : List Char) : Nat :=
  digits.foldl (fun n c => 10 * n + (c.toNat - '0'.toNat)) 0

/-- Splits off the decimal digits in front. -/
def spanDigits (text : List Char) : List Char × List Char :=
  (text.takeWhile Char.isDigit, text.dropWhile Char.isDigit)

/-- Reads an exponent: `e` or `E`, an optional sign and at least one digit, to the end. -/
def exponent? : List Char → Option Int
  | [] => some 0
  | c :: rest =>
    if c = 'e' ∨ c = 'E' then
      let (negative, digits) := match rest with
        | '-' :: r => (true, r)
        | '+' :: r => (false, r)
        | r => (false, r)
      if digits.isEmpty || !digits.all Char.isDigit then none
      else
        let size : Int := natOf digits
        some (if negative then -size else size)
    else none

/-- Reads an unsigned decimal: digits with an optional point among them (at least one digit in
all) and an optional exponent. -/
def unsigned? (negative : Bool) (text : List Char) : Option Binary64 :=
  let (whole, rest) := spanDigits text
  let (fraction, tail) := match rest with
    | '.' :: r => spanDigits r
    | r => ([], r)
  if whole.isEmpty && fraction.isEmpty then none
  else
    (exponent? tail).map fun e =>
      let digits := whole ++ fraction
      let significant := digits.dropWhile (· == '0')
      Binary64.ofDecimal negative (natOf significant) significant.length (e - fraction.length)

/-- Reads a decimal with an optional sign. -/
def read? : List Char → Option Binary64
  | '-' :: rest => unsigned? true rest
  | '+' :: rest => unsigned? false rest
  | text => unsigned? false text

/-- One tenth is written with one digit. -/
example : Layout.plain.write (Binary64.ofRatio false 1 10) = "0.1" := by decide +kernel

/-- The positional range ends at `10 ^ 16`. -/
example : Layout.plain.write (Binary64.ofInt 10000000000000000) = "1e+16" := by decide +kernel

end PageMeta.Decimal
