-- SUMMARY: Hexadecimal literals in one spelling: lower case, an even number of digits.
import Devicetree.Text.Hex
import Devicetree.Text.Pieces

/-!
# Hexadecimal literals

A literal is `0x` and all the digits behind it. It is spelled in lower case, with a
zero in front where the number of its digits is odd.
-/

namespace Devicetree

namespace HexLiteral

/-- The digits of a literal at the start of a text. -/
def find : Text → Option (Text × Nat)
  | '0' :: 'x' :: cs =>
    match cs.takeWhile Hex.isDigit with
    | [] => none
    | digits => some (digits, digits.length + 2)
  | _ => none

/-- The digits in lower case, padded to an even number. -/
def canonicalDigits (digits : Text) : Text :=
  let lower := digits.map Hex.lower
  if digits.length % 2 = 1 then '0' :: lower else lower

/-- A literal with canonical digits. -/
def canonical (digits : Text) : Text :=
  '0' :: 'x' :: canonicalDigits digits

/-- Spell every literal canonically. -/
def normalize (t : Text) : Text :=
  Piece.replaceMatches find canonical t

end HexLiteral

end Devicetree
