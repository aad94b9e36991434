-- SUMMARY: Reading the numbers that people write: signs, blanks, grouped digits, digits of any script.
import Devicetree.Decimal.Reading

/-!
# Numerals

A numeral may be padded with blanks and signed, and its digits may be of any script
and grouped by single underscores. A whole numeral is digits only; a numeral with a
fraction may have a point, an exponent, or be a word for what is not finite.
-/

namespace Devicetree

namespace Numeral

-- ---------------------------------------------------------------------------
-- Digits of any script
-- ---------------------------------------------------------------------------

/-- The zeros of all scripts that count in tens; nine more digits follow each
    (as of Unicode 14). -/
def zeros : List Nat :=
  [ 0x30, 0x660, 0x6F0, 0x7C0, 0x966, 0x9E6, 0xA66, 0xAE6, 0xB66, 0xBE6, 0xC66, 0xCE6, 0xD66,
    0xDE6, 0xE50, 0xED0, 0xF20, 0x1040, 0x1090, 0x17E0, 0x1810, 0x1946, 0x19D0, 0x1A80, 0x1A90,
    0x1B50, 0x1BB0, 0x1C40, 0x1C50, 0xA620, 0xA8D0, 0xA900, 0xA9D0, 0xA9F0, 0xAA50, 0xABF0,
    0xFF10, 0x104A0, 0x10D30, 0x11066, 0x110F0, 0x11136, 0x111D0, 0x112F0, 0x11450, 0x114D0,
    0x11650, 0x116C0, 0x11730, 0x118E0, 0x11950, 0x11C50, 0x11D50, 0x11DA0, 0x16A60, 0x16AC0,
    0x16B50, 0x1D7CE, 0x1D7D8, 0x1D7E2, 0x1D7EC, 0x1D7F6, 0x1E140, 0x1E2F0, 0x1E950, 0x1FBF0 ]

/-- The value of a digit of any script. -/
def digit? (c : Char) : Option Nat :=
  (zeros.find? fun first => first ≤ c.toNat && c.toNat < first + 10).map (c.toNat - ·)

/-- Write a digit of any script as an ASCII digit, and a blank past ASCII as a space. -/
def plainChar (c : Char) : Char :=
  if c.toNat < 0x80 then c
  else if isBlank c then ' '
  else match digit? c with
    | some d => Char.ofNat ('0'.toNat + d)
    | none => c

/-- The ASCII blanks that may pad a numeral. -/
def isPadding (c : Char) : Bool :=
  c == ' ' || (9 ≤ c.toNat && c.toNat ≤ 13)

/-- A numeral in ASCII, without the blanks around it. -/
def plain (t : Text) : Text :=
  let ascii := (t.map plainChar).dropWhile isPadding
  (ascii.reverse.dropWhile isPadding).reverse

/-- Drop the underscores between digits; `none` if one stands elsewhere. -/
def ungroup : (afterDigit : Bool) → Text → Option Text
  | _, [] => some []
  | _, ['_'] => none
  | afterDigit, '_' :: c :: cs =>
    if afterDigit && c.isDigit then (ungroup true cs).map (c :: ·) else none
  | _, c :: cs => (ungroup c.isDigit cs).map (c :: ·)

/-- The sign of a numeral, and what follows it. -/
def signed : Text → Bool × Text
  | '-' :: cs => (true, cs)
  | '+' :: cs => (false, cs)
  | cs => (false, cs)


-- ---------------------------------------------------------------------------
-- Numbers
-- ---------------------------------------------------------------------------

/-- Read a whole numeral. -/
def int? (t : Text) : Option Int := do
  let (negative, digits) := signed (← ungroup false (plain t))
  if digits.isEmpty || !digits.all Char.isDigit || Decimal.digitLimit < digits.length then none
  else
    let n : Int := Decimal.natural digits
    return if negative then -n else n

/-- Read the exponent of a numeral, if it has one, up to its end. -/
def exponent? : Text → Option Int
  | [] => some 0
  | e :: cs =>
    let (negative, digits) := signed cs
    if (e != 'e' && e != 'E') || digits.isEmpty || !digits.all Char.isDigit then none
    else
      let n : Int := Decimal.natural digits
      some (if negative then -n else n)

/-- Read digits with a point among them and an exponent behind. -/
def scientific? (t : Text) : Option Float := do
  let whole := t.takeWhile Char.isDigit
  let rest := t.dropWhile Char.isDigit
  let (fraction, rest) := match rest with
    | '.' :: cs => (cs.takeWhile Char.isDigit, cs.dropWhile Char.isDigit)
    | cs => ([], cs)
  if whole.isEmpty && fraction.isEmpty then none
  else
    let exponent ← exponent? rest
    return Decimal.toFloat (Decimal.natural (whole ++ fraction)) (exponent - fraction.length)

/-- The number that a word stands for. -/
def word? (t : Text) : Option Float :=
  let lower := String.ofList (t.map Char.toLower)
  if lower = "inf" || lower = "infinity" then some (1.0 / 0.0)
  else if lower = "nan" then some (0.0 / 0.0)
  else none

/-- Read a numeral with a fraction. -/
def float? (t : Text) : Option Float := do
  let (negative, rest) := signed (← ungroup false (plain t))
  let x ← (word? rest).or (scientific? rest)
  return if negative then -x else x

end Numeral

end Devicetree
