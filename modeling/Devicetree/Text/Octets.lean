-- SUMMARY: Rows of octets: big-endian words, and their spelling in hexadecimal.
import Devicetree.Text.Hex

/-!
# Octets

The contents of a file is a row of octets. A word is four octets, the most
significant first; octets missing behind the end count as zero.
-/

namespace Devicetree

/-- The contents of a file or a part of it. -/
abbrev Octets := List UInt8

namespace Octets

/-- The number that octets stand for, the most significant first. -/
def number (os : Octets) : Nat :=
  os.foldl (fun n o => 256 * n + o.toNat) 0

/-- The word that starts at an offset. -/
def word (offset : Nat) (os : Octets) : Nat :=
  let four := (os.drop offset).take 4
  number (four ++ List.replicate (4 - four.length) 0)

/-- Two digits for each octet. -/
def hex (os : Octets) : Text :=
  os.flatMap fun o => Hex.padded 2 o.toNat

/-- Read two digits for each octet; `none` if anything else stands there. -/
def ofHex? : Text → Option Octets
  | [] => some []
  | a :: b :: cs => do
    let high ← Hex.value? a
    let low ← Hex.value? b
    return UInt8.ofNat (16 * high + low) :: (← ofHex? cs)
  | [_] => none

end Octets

end Devicetree
