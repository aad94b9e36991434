-- SUMMARY: How a number is spelled: positional or with an exponent, and the words for what is not finite.
import Devicetree.Decimal.Shortest
import Devicetree.Text.Blank

/-!
# Spelling of numbers

A number is written with the fewest digits that read back as it. One record says
where positional spelling ends and how an exponent looks; the numbers of stores,
reports and messages are all written by `DecimalStyle.plain`.
-/

namespace Devicetree

/-- The choices open once the digits of a number are known. The point of a number
    stands behind its first `k` digits (in front of zeros, if `k` is negative). -/
structure DecimalStyle where
  /-- The least `k` for which no exponent is written. -/
  leastPoint : Int
  /-- The largest `k` for which no exponent is written. -/
  largestPoint : Int
  /-- An exponent has at least this many digits. -/
  exponentDigits : Nat
  /-- What stands for a number past every double. -/
  infinity : String
  /-- What stands for the result of a senseless operation. -/
  notANumber : String

namespace DecimalStyle

/-- Positional from a ten-thousandth up to sixteen digits before the point. -/
def plain : DecimalStyle := ⟨-3, 16, 2, "inf", "nan"⟩

/-- The same digits, with the words that a store file uses. -/
def stored : DecimalStyle := { plain with infinity := "Infinity", notANumber := "NaN" }

/-- Spell the digits of a positive number whose point stands behind the `k`-th. -/
def spell (style : DecimalStyle) (digits : List Char) (k : Int) : List Char :=
  if k < style.leastPoint || style.largestPoint < k then
    let fraction := if digits.length ≤ 1 then [] else '.' :: digits.drop 1
    let e := k - 1
    let eDigits := Nat.toDigits 10 e.natAbs
    digits.take 1 ++ fraction ++ 'e' :: (if e < 0 then '-' else '+')
      :: (List.replicate (style.exponentDigits - eDigits.length) '0' ++ eDigits)
  else if k ≤ 0 then
    '0' :: '.' :: (List.replicate k.natAbs '0' ++ digits)
  else
    let whole := digits.take k.toNat ++ List.replicate (k.toNat - digits.length) '0'
    let fraction := digits.drop k.toNat
    whole ++ '.' :: (if fraction.isEmpty then ['0'] else fraction)

/-- The bit that a double sets for a sign. -/
def signBit : Nat := 0x8000000000000000

/-- Spell a number. -/
def write (style : DecimalStyle) (x : Float) : String :=
  let bits := x.toBits
  let sign := if bits.toNat / signBit = 1 then "-" else ""
  if x.isNaN then style.notANumber
  else if x.isInf then sign ++ style.infinity
  else if bits.toNat % signBit = 0 then sign ++ "0.0"
  else
    let d := (BinaryFraction.ofBits bits).shortest
    let digits := Nat.toDigits 10 d.digits
    let significant := (digits.reverse.dropWhile (· == '0')).reverse
    sign ++ String.ofList (style.spell significant (digits.length + d.exponent))

end DecimalStyle

end Devicetree
