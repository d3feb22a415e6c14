import PageMeta.Object.Item
import PageMeta.Plain.Text

/-!
# Functions of bytes

`callBytes` calls a function of bytes on bytes.
-/

namespace PageMeta.Plain

/-- Bytes made of numbers. -/
def madeBytes (bs : List UInt8) : Value := .bytes bs .pending

/-- Bytes read from pairs of hexadecimal digits, with gaps between the pairs; `position` is the place
in the text. -/
def bytesOfHex : Nat → List Char → Except Fault (List UInt8)
  | _, [] => .ok []
  | position, c :: rest =>
    if c.isWhitespace || c = '\x0b' || c = '\x0c' then bytesOfHex (position + 1) rest
    else
      let digit? := fun c : Char =>
        if c.isDigit then some (c.toNat - '0'.toNat)
        else if 'a' ≤ c.toLower ∧ c.toLower ≤ 'f' then some (c.toLower.toNat - 'a'.toNat + 10)
        else none
      match digit? c, rest with
      | none, _ => .error (.hexDigit position)
      | some _, [] => .error (.hexDigit (position + 1))
      | some high, d :: rest =>
        match digit? d with
        | none => .error (.hexDigit (position + 1))
        | some low => do
          let others ← bytesOfHex (position + 2) rest
          return (high * 16 + low).toUInt8 :: others

/-- Bytes in hexadecimal. -/
def hexOfBytes (bs : List UInt8) : List Char := bs.flatMap fun b => Text.hex 2 b.toNat

/-- The characters of bytes, one for each. -/
def charsOf (bs : List UInt8) : List Char := bs.map fun b => Char.ofNat b.toNat

/-- The bytes of characters, one for each. -/
def bytesOf (cs : List Char) : List UInt8 := cs.map fun c => c.toNat.toUInt8

/-- Whether a byte is an ASCII gap between words. -/
def isByteGap (c : Char) : Bool := (0x9 ≤ c.toNat && c.toNat ≤ 0xd) || c = ' '

/-- What a function that only looks at bytes says. -/
def bytesFact? (name : String) (s : List Char) : Option Bool :=
  let all := fun p : Char → Bool => !s.isEmpty && s.all p
  match name with
  | "isalnum" => some (all Char.isAlphanum)
  | "isalpha" => some (all Char.isAlpha)
  | "isascii" => some (s.all fun c => decide (c.toNat < 0x80))
  | "isdigit" => some (all Char.isDigit)
  | "isspace" => some (all isByteGap)
  | "islower" => some (s.any Char.isLower && !s.any Char.isUpper)
  | "isupper" => some (s.any Char.isUpper && !s.any Char.isLower)
  | _ => none

/-- Bytes with their ASCII letters in another case. -/
def recasedBytes? (name : String) (s : List Char) : Option (List Char) :=
  match name with
  | "lower" => some (s.map Char.toLower)
  | "upper" => some (s.map Char.toUpper)
  | "swapcase" =>
    some (s.map fun c => if c.isUpper then c.toLower else c.toUpper)
  | "capitalize" =>
    match s with
    | [] => some []
    | c :: rest => some (c.toUpper :: rest.map Char.toLower)
  | _ => none

/-- A part that is looked for in bytes: bytes, or one byte by its number. -/
def bytePart (v : Value) : Heap.Action (List UInt8) := do
  match v, v.integer? with
  | .bytes bs _, _ => return bs
  | _, some n =>
    if 0 ≤ n ∧ n < 256 then return [n.toNat.toUInt8] else throw .byteRange
  | _, none =>
    fail (.wrongType "argument" "be integer or bytes-like object"
      ("'" ++ (← get).typeName v ++ "'"))

/-- What a search in bytes finds. -/
def searchBytes (name : String) (bs : List UInt8) (places : Places) : Heap.Action Value := do
  let part ← bytePart (places.at 0)
  let (start, stop) ← places.bounds 1 true
  let found := if name.startsWith "r" then findLast? part bs start stop
    else findPart? part bs start stop
  match name, found with
  | "count", _ => return .newInt (countParts part bs start stop)
  | _, some n => return .newInt n
  | "find", none | "rfind", none => return .ofInt (-1)
  | _, none => fail (.partNotFound "subsection")

/-- Calls a function of bytes on bytes. -/
def callBytes (v : Value) (bs : List UInt8) (name : String) (places : Places) :
    Heap.Action Value := do
  let w := places.at 0
  match bytesFact? name (charsOf bs), recasedBytes? name (charsOf bs) with
  | some b, _ => return .bool b
  | none, some cs => return madeBytes (bytesOf cs)
  | none, none =>
    match name with
    | "decode" => do
      let (encoding, errors) ← encodingAt "decode" places 0
      match decodeBytes encoding errors bs with
      | .ok s => return .newText s
      | .error e => throw e
    | "hex" => return made (hexOfBytes bs)
    | "count" | "find" | "index" | "rfind" | "rindex" => searchBytes name bs places
    | "startswith" | "endswith" => do
      let part ← bytesFor (name ++ " first arg") "be bytes or a tuple of bytes" w
      return .bool (if name = "startswith" then part.isPrefixOf bs else part.isSuffixOf bs)
    | "strip" | "lstrip" | "rstrip" => do
      let isDropped ← match places.at? 0 with
        | none | some .none => pure isByteGap
        | some (.bytes cs _) => pure fun c => (charsOf cs).contains c
        | some w => do throw (.bytesOperand ((← get).typeName w))
      let kept := stripBy isDropped (name != "rstrip") (name != "lstrip") (charsOf bs)
      return if kept.length = bs.length then v else madeBytes (bytesOf kept)
    | "__add__" =>
      match w with
      | .bytes cs _ => return madeBytes (bs ++ cs)
      | _ => do fail (.concatenation "bytes" ((← get).typeName w))
    | "__mul__" | "__rmul__" => do
      return madeBytes (List.replicate (← indexOf w).toNat bs).flatten
    | "__contains__" => .bool <$> Object.contains v w
    | "__getitem__" => Heap.ask fun h => Object.getItem h v w
    | "__len__" => return .newInt bs.length
    | "__iter__" => do Heap.newList (← Heap.elements v)
    | "__bytes__" => return v
    | _ => throw (.noAttribute "bytes" name)

end PageMeta.Plain
