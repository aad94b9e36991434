-- SUMMARY: Hexadecimal digits: recognising, reading and writing them.
import Devicetree.Text.Blank

/-!
# Hexadecimal digits

Digits are ASCII only. Numbers are written in lower case, either in as few digits
as they need or padded with zeros on the left to a given width.
-/

namespace Devicetree

namespace Hex

/-- The sixteen digits in either case. -/
def isDigit (c : Char) : Bool :=
  c.isDigit || ('a' ≤ c && c ≤ 'f') || ('A' ≤ c && c ≤ 'F')

/-- The value of a digit, `none` for any other character. -/
def value? (c : Char) : Option Nat :=
  if c.isDigit then some (c.toNat - '0'.toNat)
  else if 'a' ≤ c && c ≤ 'f' then some (c.toNat - 'a'.toNat + 10)
  else if 'A' ≤ c && c ≤ 'F' then some (c.toNat - 'A'.toNat + 10)
  else none

/-- The number that a row of digits stands for, `none` if it holds anything else. -/
def read? (digits : Text) : Option Nat :=
  digits.foldl (fun n c => do return 16 * (← n) + (← value? c)) (some 0)

/-- The lower-case digits of a number, without leading zeros. -/
def digits (n : Nat) : Text :=
  Nat.toDigits 16 n

/-- The digits of a number, padded with zeros on the left to at least `width`. -/
def padded (width n : Nat) : Text :=
  let ds := digits n
  List.replicate (width - ds.length) '0' ++ ds

/-- Write a digit in lower case; other characters stay. -/
def lower (c : Char) : Char :=
  if 'A' ≤ c && c ≤ 'F' then Char.ofNat (c.toNat + 32) else c

end Hex

end Devicetree
