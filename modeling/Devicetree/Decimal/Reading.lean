-- SUMMARY: Reading decimal texts as doubles and as integers, correctly rounded.
import Devicetree.Decimal.Shortest
import Devicetree.Text.Blank

/-!
# Reading decimals

A decimal is read by rounding once, from its exact value. Exponents so large or so
small that no choice of digits matters are decided by the magnitude alone, which
keeps the powers of ten small.
-/

namespace Devicetree

namespace Decimal

/-- The most digits that a whole number may be written with. -/
def digitLimit : Nat := 4300

/-- The number that a row of ASCII digits stands for. -/
def natural (digits : Text) : Nat :=
  digits.foldl (fun n c => 10 * n + (c.toNat - '0'.toNat)) 0

/-- The double nearest to `mantissa · 10^exponent`; infinite when that is past every
    double. -/
def toFloat (mantissa : Nat) (exponent : Int) : Float :=
  let magnitude := (Nat.toDigits 10 mantissa).length + exponent
  if mantissa = 0 || magnitude < -400 then 0.0
  else if 400 < magnitude then 1.0 / 0.0
  else if exponent < 0 then Float.ofScientific mantissa true exponent.natAbs
  else Float.ofScientific mantissa false exponent.natAbs

end Decimal

end Devicetree
