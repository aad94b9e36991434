-- SUMMARY: UTF-8: decoding octets, where and why they are not UTF-8, and encoding texts.
import Devicetree.Text.Octets

/-!
# UTF-8

Octets are decoded strictly: no overlong forms, no surrogates, nothing past the last
code point. A fault names the first octet that cannot go on, how far the faulty part
reaches, and what is wrong with it: an octet that starts no character, one that does
not continue the character begun, or an end in the middle of a character.
-/

namespace Devicetree

namespace Utf8

-- ---------------------------------------------------------------------------
-- Faults
-- ---------------------------------------------------------------------------

/-- Why octets are not UTF-8. -/
inductive Cause where
  | invalidStart
  | invalidContinuation
  | unexpectedEnd
deriving DecidableEq, Repr

/-- The faulty octets: the first of them, its position, and their number. -/
structure Fault where
  cause : Cause
  first : UInt8
  position : Nat
  count : Nat
deriving DecidableEq, Repr

/-- The wording of a cause. -/
def Cause.message : Cause → String
  | invalidStart => "invalid start byte"
  | invalidContinuation => "invalid continuation byte"
  | unexpectedEnd => "unexpected end of data"

/-- The wording of a fault. -/
def Fault.message (fault : Fault) : String :=
  let digits := String.ofList (Hex.padded 2 fault.first.toNat)
  let place :=
    if fault.count = 1 then s!"byte 0x{digits} in position {fault.position}"
    else s!"bytes in position {fault.position}-{fault.position + fault.count - 1}"
  s!"'utf-8' codec can't decode {place}: {fault.cause.message}"


-- ---------------------------------------------------------------------------
-- Decoding
-- ---------------------------------------------------------------------------

/-- An octet that continues a character. -/
def isContinuation (o : UInt8) : Bool :=
  0x80 ≤ o.toNat && o.toNat < 0xC0

/-- The six bits that a continuing octet adds. -/
def low (o : UInt8) : Nat :=
  o.toNat % 0x40

/-- Whether the second octet can follow the first of three or four: it continues the
    character, which is neither overlong nor a surrogate nor past the last one. -/
def isSecond (first second : UInt8) : Bool :=
  isContinuation second
    && !(first == 0xE0 && second < 0xA0) && !(first == 0xED && 0xA0 ≤ second)
    && !(first == 0xF0 && second < 0x90) && !(first == 0xF4 && 0x90 ≤ second)

/-- The character that starts with an octet, and how many of the others it takes; or
    what is wrong, and how many octets that concerns. -/
def charAt (first : UInt8) (rest : Octets) : Except (Cause × Nat) (Char × Nat) :=
  let n := first.toNat
  if n < 0x80 then .ok (Char.ofNat n, 0)
  else if n < 0xC2 then .error (.invalidStart, 1)
  else if n < 0xE0 then
    match rest with
    | [] => .error (.unexpectedEnd, 1)
    | a :: _ =>
      if isContinuation a then .ok (Char.ofNat ((n - 0xC0) * 0x40 + low a), 1)
      else .error (.invalidContinuation, 1)
  else if n < 0xF0 then
    match rest with
    | [] => .error (.unexpectedEnd, 1)
    | [a] => if isSecond first a then .error (.unexpectedEnd, 2) else .error (.invalidContinuation, 1)
    | a :: b :: _ =>
      if !isSecond first a then .error (.invalidContinuation, 1)
      else if !isContinuation b then .error (.invalidContinuation, 2)
      else .ok (Char.ofNat (((n - 0xE0) * 0x40 + low a) * 0x40 + low b), 2)
  else if n < 0xF5 then
    match rest with
    | [] => .error (.unexpectedEnd, 1)
    | [a] => if isSecond first a then .error (.unexpectedEnd, 2) else .error (.invalidContinuation, 1)
    | [a, b] =>
      if !isSecond first a then .error (.invalidContinuation, 1)
      else if !isContinuation b then .error (.invalidContinuation, 2)
      else .error (.unexpectedEnd, 3)
    | a :: b :: c :: _ =>
      if !isSecond first a then .error (.invalidContinuation, 1)
      else if !isContinuation b then .error (.invalidContinuation, 2)
      else if !isContinuation c then .error (.invalidContinuation, 3)
      else .ok (Char.ofNat ((((n - 0xF0) * 0x40 + low a) * 0x40 + low b) * 0x40 + low c), 3)
  else .error (.invalidStart, 1)

/-- Decode octets from a position on, of which the first `covered` belong to a character
    already. -/
def decodeFrom : (covered position : Nat) → Octets → Except Fault Text
  | _, _, [] => .ok []
  | covered + 1, position, _ :: os => decodeFrom covered (position + 1) os
  | 0, position, o :: os =>
    match charAt o os with
    | .error (cause, count) => .error ⟨cause, o, position, count⟩
    | .ok (c, covered) =>
      match decodeFrom covered (position + 1) os with
      | .error fault => .error fault
      | .ok cs => .ok (c :: cs)

/-- Decode octets. -/
def decode (os : Octets) : Except Fault Text :=
  decodeFrom 0 0 os

/-- Decode octets; those that are not UTF-8 are read as one character each. -/
def decodeOrSpell (os : Octets) : Text :=
  match decode os with
  | .ok t => t
  | .error _ => os.map fun o => Char.ofNat o.toNat


-- ---------------------------------------------------------------------------
-- Encoding
-- ---------------------------------------------------------------------------

/-- The octet that continues a character with the lowest six bits of a number. -/
def continuation (n : Nat) : UInt8 :=
  UInt8.ofNat (0x80 + n % 0x40)

/-- The octets of a character. -/
def encodeChar (c : Char) : Octets :=
  let n := c.toNat
  if n < 0x80 then [UInt8.ofNat n]
  else if n < 0x800 then [UInt8.ofNat (0xC0 + n / 0x40), continuation n]
  else if n < 0x10000 then
    [UInt8.ofNat (0xE0 + n / 0x1000), continuation (n / 0x40), continuation n]
  else
    [UInt8.ofNat (0xF0 + n / 0x40000), continuation (n / 0x1000), continuation (n / 0x40),
      continuation n]

/-- Encode a text. -/
def encode (t : Text) : Octets :=
  t.flatMap encodeChar

end Utf8

end Devicetree
