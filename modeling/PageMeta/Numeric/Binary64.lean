/-!
# Double precision numbers

A finite double is a whole number of units of `2 ^ -1074`, the smallest step of the format, with
a sign.  That makes the representation unique (the two zeros apart), turns comparison into
comparison of integers, and lets rounding be stated on a quotient of natural numbers.

* `roundUnits num den` is the number of units nearest to `num / den`, a tie going to the even
  significand.
* `ofRatio` rounds a quotient and overflows to an infinity.
* `toInt?` is the exact integer a double stands for, if it stands for one.
-/

namespace PageMeta

/-- A double precision number. -/
inductive Binary64 where
  /-- `units * 2 ^ -1074`, with a sign. -/
  | finite (negative : Bool) (units : Nat)
  /-- An infinity. -/
  | infinite (negative : Bool)
  /-- Not a number, and so never equal as a number. -/
  | nan
deriving DecidableEq, Repr, Inhabited

namespace Binary64

/-- Units in one: `2 ^ 1074`. -/
def unitsPerOne : Nat := Nat.pow 2 1074

/-- Units in `2 ^ 1024`, the first power of two beyond the format. -/
def overflowUnits : Nat := Nat.pow 2 2098

/-- The step of the format at a magnitude: a significand has 53 bits, and no step is below one
unit. -/
def step (units : Nat) : Nat := Nat.pow 2 (Nat.log2 units - 52)

/-- Quotient rounded to the nearest natural number, a tie to the even one. -/
def roundEven (num den : Nat) : Nat :=
  let quotient := num / den
  let rest := 2 * (num % den)
  if den < rest || (rest == den && quotient % 2 == 1) then quotient + 1 else quotient

/-- The number of units nearest to `num / den`. -/
def roundUnits (num den : Nat) : Nat :=
  let scaled := num * unitsPerOne
  let grain := step (scaled / den)
  roundEven scaled (den * grain) * grain

/-- A quotient as a double; a magnitude that rounds to `2 ^ 1024` or more is infinite. -/
def ofRatio (negative : Bool) (num den : Nat) : Binary64 :=
  let units := roundUnits num den
  if overflowUnits ≤ units then .infinite negative else .finite negative units

/-- An integer as a double. -/
def ofInt (n : Int) : Binary64 := ofRatio (decide (n < 0)) n.natAbs 1

/-- A decimal `digits * 10 ^ exponent` as a double.  `size` is the number of digits; exponents
far outside the format are answered without the power of ten. -/
def ofDecimal (negative : Bool) (digits size : Nat) (exponent : Int) : Binary64 :=
  if digits = 0 then .finite negative 0
  else if 400 < exponent + size then .infinite negative
  else if exponent + size < -400 then .finite negative 0
  else if 0 ≤ exponent then ofRatio negative (digits * Nat.pow 10 exponent.toNat) 1
  else ofRatio negative digits (Nat.pow 10 exponent.natAbs)

/-- Zero, of either sign. -/
def isZero : Binary64 → Bool
  | .finite _ units => units == 0
  | _ => false

/-- Neither infinite nor a not-a-number. -/
def isFinite : Binary64 → Bool
  | .finite _ _ => true
  | _ => false

/-- Signed number of units. -/
def signed (negative : Bool) (units : Nat) : Int := if negative then -(units : Int) else units

/-- The integer a double equals, if it equals one. -/
def toInt? : Binary64 → Option Int
  | .finite negative units =>
    if units % unitsPerOne = 0 then some (signed negative (units / unitsPerOne)) else none
  | _ => none

/-- Equality as numbers: the zeros are equal, a not-a-number equals nothing. -/
def same : Binary64 → Binary64 → Bool
  | .finite s m, .finite t n => signed s m == signed t n
  | .infinite s, .infinite t => s == t
  | _, _ => false

/-- Order as numbers; nothing is below or above a not-a-number. -/
def le : Binary64 → Binary64 → Bool
  | .nan, _ => false
  | _, .nan => false
  | .infinite s, .infinite t => s || !t
  | .infinite s, .finite _ _ => s
  | .finite _ _, .infinite t => !t
  | .finite s m, .finite t n => decide (signed s m ≤ signed t n)

/-- Half of one. -/
def half : Binary64 := .finite false (Nat.pow 2 1073)

/-- One half is what rounding a half gives. -/
theorem ofRatio_one_two : ofRatio false 1 2 = half := by decide +kernel

/-- A double is equal to itself unless it is a not-a-number. -/
theorem same_self (x : Binary64) (h : x ≠ .nan) : x.same x = true := by
  cases x with
  | finite s m => simp [same]
  | infinite s => simp [same]
  | nan => exact absurd rfl h

end Binary64

end PageMeta
