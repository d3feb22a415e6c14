/-!
# UTF-8

Decoding with the place and the reason of the first fault, and cutting text by its length in
bytes.

A fault covers the bytes that a valid sequence could have begun with: the lead byte alone, the
lead byte and the good continuation bytes after it, or everything up to an early end.

* `decode` reads a byte string or finds its first fault.
* `abbreviate` keeps the two ends of a long text, in whole characters.
-/

namespace PageMeta.Text

/-- Why bytes are not UTF-8. -/
inductive FaultReason where
  | invalidStart
  | invalidContinuation
  | unexpectedEnd
deriving DecidableEq, Repr

/-- The first bytes that are not UTF-8: `length` of them from `position`. -/
structure Fault where
  position : Nat
  length : Nat
  reason : FaultReason
  /-- The first byte of the fault. -/
  byte : UInt8
deriving DecidableEq, Repr

/-- Whether a byte continues a sequence. -/
def isContinuation (b : UInt8) : Bool := 0x80 ≤ b.toNat && b.toNat < 0xc0

/-- Number of continuation bytes a lead byte asks for. -/
def continuationCount (lead : UInt8) : Option Nat :=
  if lead.toNat < 0x80 then some 0
  else if lead.toNat < 0xc2 then none
  else if lead.toNat < 0xe0 then some 1
  else if lead.toNat < 0xf0 then some 2
  else if lead.toNat < 0xf5 then some 3
  else none

/-- Whether a byte may follow a lead byte: overlong forms, surrogates and numbers beyond the last
code point are excluded here. -/
def isSecond (lead second : UInt8) : Bool :=
  isContinuation second &&
    (if lead = 0xe0 then 0xa0 ≤ second.toNat
     else if lead = 0xed then second.toNat < 0xa0
     else if lead = 0xf0 then 0x90 ≤ second.toNat
     else if lead = 0xf4 then second.toNat < 0x90
     else true)

/-- The bits a lead byte carries, when `count` bytes follow it. -/
def leadBits (lead : UInt8) (count : Nat) : Nat :=
  match count with
  | 0 => lead.toNat
  | 1 => lead.toNat % 0x20
  | 2 => lead.toNat % 0x10
  | _ => lead.toNat % 0x08

/-- Where decoding stands: between characters, or inside a sequence. -/
inductive Progress where
  | between
  /-- Inside the sequence that `lead` began at `start`: bytes still to come, bits so far. -/
  | inside (lead : UInt8) (start missing bits : Nat) (isSecondNext : Bool)

/-- Decodes the bytes from `position` on; `done` holds the characters so far, last first. -/
def decodeFrom : List UInt8 → Nat → Progress → List Char → Except Fault (List Char)
  | [], _, .between, done => .ok done.reverse
  | [], position, .inside lead start _ _ _, _ =>
    .error ⟨start, position - start, .unexpectedEnd, lead⟩
  | b :: rest, position, .between, done =>
    match continuationCount b with
    | none => .error ⟨position, 1, .invalidStart, b⟩
    | some 0 => decodeFrom rest (position + 1) .between (Char.ofNat b.toNat :: done)
    | some count =>
      decodeFrom rest (position + 1) (.inside b position count (leadBits b count) true) done
  | b :: rest, position, .inside lead start missing bits second, done =>
    if second && !isSecond lead b || !isContinuation b then
      .error ⟨start, position - start, .invalidContinuation, lead⟩
    else
      let bits := bits * 0x40 + b.toNat % 0x40
      if missing ≤ 1 then decodeFrom rest (position + 1) .between (Char.ofNat bits :: done)
      else decodeFrom rest (position + 1) (.inside lead start (missing - 1) bits false) done

/-- Decodes a byte string. -/
def decode (bytes : List UInt8) : Except Fault String :=
  (decodeFrom bytes 0 .between []).map String.ofList

/-- The longest run of characters in front that fits into `budget` bytes. -/
def takeBytes : Nat → List Char → List Char
  | _, [] => []
  | budget, c :: rest =>
    if c.utf8Size ≤ budget then c :: takeBytes (budget - c.utf8Size) rest else []

/-- A text of more than `limit` bytes is cut to the characters within its first half (rounded
up) and those within one byte less at its end. -/
def abbreviate (limit : Nat) (text : String) : String :=
  if text.utf8ByteSize ≤ limit then text
  else
    let half := (limit + 1) / 2
    let front := takeBytes half text.toList
    let back := (takeBytes (half - 1) text.toList.reverse).reverse
    String.ofList (front ++ '.' :: '.' :: '.' :: back)

/-- The characters taken are the front of the text. -/
theorem takeBytes_append_drop (budget : Nat) (cs : List Char) :
    takeBytes budget cs ++ cs.drop (takeBytes budget cs).length = cs := by
  induction cs generalizing budget with
  | nil => simp [takeBytes]
  | cons c rest ih =>
    rw [takeBytes]
    split
    · simp [ih]
    · simp

example : decode [0xc3, 0xa9] = .ok "é" := by rfl

example : decode [0xc3, 0x28] = .error ⟨0, 1, .invalidContinuation, 0xc3⟩ := by rfl

example : decode [0x7b, 0x7d, 0xe2, 0x82] = .error ⟨2, 2, .unexpectedEnd, 0xe2⟩ := by rfl

end PageMeta.Text
