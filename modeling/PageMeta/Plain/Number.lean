import PageMeta.Plain.Text
import PageMeta.Schema.Scalar

/-!
# Functions of numbers

`callInteger` and `callReal` call functions of integers and of doubles; `readInteger` and `readReal`
read texts as numbers.
-/

namespace PageMeta.Plain

/-! ## Reading numbers -/

/-- The most digits an integer may be written with. -/
def maxDigits : Nat := 4300

/-- Drops the gaps at both ends. -/
def trimGaps (s : List Char) : List Char := stripBy isGap true true s

/-- The value of a digit of any script, or of a letter. -/
def digitValue? (c : Char) : Option Nat :=
  if c.isDigit then some (c.toNat - '0'.toNat)
  else if 'a' ≤ c ∧ c ≤ 'z' then some (c.toNat - 'a'.toNat + 10)
  else if 'A' ≤ c ∧ c ≤ 'Z' then some (c.toNat - 'A'.toNat + 10)
  else
    match Text.digitRanges.find? fun p => p.1 ≤ c.toNat && c.toNat ≤ p.2 with
    | some (first, _) => some ((c.toNat - first) % 10)
    | none => none

/-- The digits of a number in a base; single underscores may stand between them. -/
def digitsIn? (base : Nat) (s : List Char) : Option (List Nat) :=
  if Schema.strayUnderscore s then none
  else
    match (s.filter (· != '_')).mapM digitValue? with
    | some digits => if digits.isEmpty || digits.any (base ≤ ·) then none else some digits
    | none => none

/-- The base that a text tells in front, and what is left of the text. -/
def baseOf (base : Nat) (s : List Char) : Nat × List Char :=
  let after := fun rest : List Char => if rest.head? == some '_' then rest.drop 1 else rest
  match s with
  | '0' :: c :: rest =>
    let letter := c.toLower
    if (base = 0 ∨ base = 16) ∧ letter = 'x' then (16, after rest)
    else if (base = 0 ∨ base = 8) ∧ letter = 'o' then (8, after rest)
    else if (base = 0 ∨ base = 2) ∧ letter = 'b' then (2, after rest)
    else (if base = 0 then 10 else base, s)
  | _ => (if base = 0 then 10 else base, s)

/-- Whether a text without a base begins with a zero that counts for nothing. -/
def hasLeadingZero (base : Nat) (s : List Char) (digits : List Nat) : Bool :=
  base == 0 && s.head? == some '0' && digits.any (· != 0)

/-- Reads a text as an integer; nothing if it is none. -/
def readInteger (base : Nat) (s : List Char) : Except Error (Option Int) :=
  let body := trimGaps s
  let (negative, unsigned) := match body with
    | '-' :: rest => (true, rest)
    | '+' :: rest => (false, rest)
    | rest => (false, rest)
  let (actual, rest) := baseOf base unsigned
  match digitsIn? actual rest with
  | none => .ok none
  | some digits =>
    if hasLeadingZero base unsigned digits && actual == 10 then .ok none
    else if maxDigits < digits.length && !([2, 4, 8, 16, 32].contains actual) then
      .error (.numberTooLong digits.length)
    else
      let n : Nat := digits.foldl (fun n d => n * actual + d) 0
      .ok (some (if negative then -(n : Int) else n))

/-- A text with the digits of all scripts as ASCII digits. -/
def plainDigits (s : List Char) : List Char :=
  s.map fun c =>
    if Text.isDecimalDigit c then (Nat.digitChar ((digitValue? c).getD 0)) else c

/-- Whether every underscore stands between two digits. -/
def isJoined : List Char → Bool
  | a :: '_' :: b :: rest => a.isDigit && b.isDigit && isJoined (b :: rest)
  | '_' :: _ => false
  | [_, '_'] => false
  | _ :: rest => isJoined rest
  | [] => true

/-- Reads a text as a double. -/
def readReal? (s : List Char) : Option Binary64 :=
  let body := plainDigits (trimGaps s)
  if isJoined body then Schema.plainReal? (body.filter (· != '_')) else none

/-! ## Integers -/

/-- The bytes of a number, most significant first. -/
def bytesOfNat : Nat → Nat → List UInt8
  | 0, _ => []
  | size + 1, n => bytesOfNat size (n / 256) ++ [(n % 256).toUInt8]

/-- The number with given bytes, most significant first. -/
def natOfBytes (bs : List UInt8) : Nat := bs.foldl (fun n b => n * 256 + b.toNat) 0

/-- Number of binary digits. -/
def bitLength (n : Nat) : Nat := if n = 0 then 0 else Nat.log2 n + 1

/-- Number of ones among the binary digits, in at most `steps` digits. -/
def bitCount : Nat → Nat → Nat
  | 0, _ => 0
  | steps + 1, n => n % 2 + bitCount steps (n / 2)

/-- Calls a function of integers on an integer. -/
def callInteger (v : Value) (n : Int) (name : String) (places : Places) : Heap.Action Value := do
  let operand? := (places.at? 0).bind Value.integer?
  match name, operand? with
  | "bit_length", _ => return .newInt (bitLength n.natAbs)
  | "bit_count", _ => return .newInt (bitCount (bitLength n.natAbs) n.natAbs)
  | "conjugate", _ | "__int__", _ | "__index__", _ | "__trunc__", _ | "__floor__", _
  | "__ceil__", _ | "__pos__", _ =>
    match v with
    | .int _ _ => return v
    | _ => return .ofInt n
  | "__round__", _ =>
    match v with
    | .int _ _ => return v
    | _ => return .ofInt n
  | "__neg__", _ => return .newInt (-n)
  | "__abs__", _ => return .newInt n.natAbs
  | "__invert__", _ => return .newInt (-n - 1)
  | "__bool__", _ => return .bool (n != 0)
  | "__float__", _ =>
    match Binary64.ofInt n with
    | .infinite _ => fail .numberTooLarge
    | x => return .real x .pending
  | "as_integer_ratio", _ => newScalarTuple [.newInt n, .ofInt 1]
  | "__getnewargs__", _ => newScalarTuple [.newInt n]
  | "__add__", some m | "__radd__", some m => return .newInt (n + m)
  | "__sub__", some m => return .newInt (n - m)
  | "__rsub__", some m => return .newInt (m - n)
  | "__mul__", some m | "__rmul__", some m => return .newInt (n * m)
  | "to_bytes", _ => do
    let size ← places.index 0 1
    let bs := bytesOfNat size.toNat n.natAbs
    return .bytes (if (places.at 1).text? == some "little" then bs.reverse else bs) .pending
  | _, _ => throw (.noAttribute "int" name)

/-! ## Doubles -/

/-- A number in hexadecimal with a given number of digits. -/
def hexPadded (width n : Nat) : String := String.ofList (Text.hex width n)

/-- A double with its binary digits in hexadecimal. -/
def hexReal : Binary64 → String
  | .nan => "nan"
  | .infinite negative => if negative then "-inf" else "inf"
  | .finite negative units =>
    let sign := if negative then "-" else ""
    if units = 0 then sign ++ "0x0.0p+0"
    else
      let lead := Nat.log2 units
      let normal := max lead 52
      let fraction := (units * Nat.pow 2 52 / Nat.pow 2 normal) % Nat.pow 2 52
      let exponent : Int := (normal : Int) - 1074
      sign ++ (if lead < 52 then "0x0." else "0x1.") ++ hexPadded 13 fraction ++ "p" ++
        (if exponent < 0 then "-" else "+") ++ Decimal.digitsOf exponent.natAbs

/-- The fraction that a double is, in lowest terms. -/
def ratioOf (negative : Bool) (units : Nat) : Int × Nat :=
  let g := Nat.gcd units Binary64.unitsPerOne
  (Binary64.signed negative (units / g), Binary64.unitsPerOne / g)

/-- A double as an integer, without its fraction; `target` words the complaint. -/
def truncated (target : String) : Binary64 → Except Fault Int
  | .nan => .error (.notANumber target)
  | .infinite _ => .error (.infinite target)
  | .finite negative units => .ok (Binary64.signed negative (units / Binary64.unitsPerOne))

/-- Calls a function of doubles on a double. -/
def callReal (v : Value) (x : Binary64) (name : String) : Heap.Action Value := do
  match name with
  | "is_integer" => return .bool x.toInt?.isSome
  | "conjugate" | "__float__" | "__pos__" => return v
  | "hex" => return .newText (hexReal x)
  | "__bool__" => return .bool (!x.isZero)
  | "__neg__" | "__abs__" =>
    match x with
    | .finite negative units =>
      return .real (.finite (name = "__neg__" && !negative) units) .pending
    | .infinite negative => return .real (.infinite (name = "__neg__" && !negative)) .pending
    | .nan => return .real .nan .pending
  | "__int__" | "__trunc__" =>
    match truncated "integer" x with
    | .ok n => return .newInt n
    | .error fault => fail fault
  | "as_integer_ratio" =>
    match x with
    | .finite negative units =>
      let (n, d) := ratioOf negative units
      newScalarTuple [.newInt n, .newInt d]
    | .infinite _ => fail (.infinite "integer ratio")
    | .nan => fail (.notANumber "integer ratio")
  | "__getnewargs__" => newScalarTuple [.real x .pending]
  | _ => throw (.noAttribute "float" name)

end PageMeta.Plain
