-- SUMMARY: The shortest decimal that reads back as a given binary fraction, in exact arithmetic.

/-!
# Shortest decimals

A finite double is a fraction `m · 2^q`. The decimals that read back as it are
those in the interval of reals that lie nearest to it, whose ends belong to the
interval when `m` is even. For one digit, two digits and so on, the two
neighbours of the fraction on the grid of decimals with that many digits are
tested; the first grid on which one of them lies in the interval wins, and of two
the nearer is taken. No step rounds.
-/

namespace Devicetree

/-- A positive finite double, `mantissa · 2^(up - down)`, where one of `up` and `down`
    is zero. `lowest` holds for a mantissa that starts a binade, below which the
    doubles lie closer together. -/
structure BinaryFraction where
  mantissa : Nat
  up : Nat
  down : Nat
  lowest : Bool
deriving DecidableEq, Repr

/-- The decimal `digits · 10^exponent`. -/
structure Decimal where
  digits : Nat
  exponent : Int
deriving DecidableEq, Repr

namespace BinaryFraction

/-- The bit above the fraction of a double, which is set but not stored unless the
    exponent is the least one. -/
def hiddenBit : Nat := 0x10000000000000

/-- Take a double apart; the sign bit is ignored. -/
def ofBits (bits : UInt64) : BinaryFraction :=
  let fraction := bits.toNat % hiddenBit
  let biased := bits.toNat / hiddenBit % 2048
  let mantissa := if biased = 0 then fraction else fraction + hiddenBit
  let exponent := if biased = 0 then 1 else biased
  { mantissa
    up := exponent - 1075
    down := 1075 - exponent
    lowest := fraction == 0 && 1 < biased }

/-- The fraction in quarters of its last place, over a common denominator. -/
def quarters (x : BinaryFraction) : Nat :=
  4 * x.mantissa * Nat.pow 2 x.up

/-- The denominator that belongs to `quarters`. -/
def denominator (x : BinaryFraction) : Nat :=
  4 * Nat.pow 2 x.down

/-- The lower end of the interval that rounds to the fraction, over `denominator`. -/
def low (x : BinaryFraction) : Nat :=
  (4 * x.mantissa - if x.lowest then 1 else 2) * Nat.pow 2 x.up

/-- The upper end of the interval that rounds to the fraction, over `denominator`. -/
def high (x : BinaryFraction) : Nat :=
  (4 * x.mantissa + 2) * Nat.pow 2 x.up

/-- Whether the decimal reads back as the fraction. -/
def readsBack (x : BinaryFraction) (d : Decimal) : Bool :=
  let scaled := d.digits * Nat.pow 10 d.exponent.toNat * x.denominator
  let low := x.low * Nat.pow 10 (-d.exponent).toNat
  let high := x.high * Nat.pow 10 (-d.exponent).toNat
  if x.mantissa % 2 = 0 then low ≤ scaled && scaled ≤ high else low < scaled && scaled < high

/-- The least `e` with `x < 10^e`: how many digits stand before the point. -/
def magnitude (x : BinaryFraction) : Int :=
  let whole := x.quarters / x.denominator
  if whole = 0 then 1 - (below 400 1 : Int) else (Nat.toDigits 10 whole).length
where
  /-- The least power of ten, from `k` up, that lifts the fraction to one or more. -/
  below : Nat → Nat → Nat
    | 0, k => k
    | fuel + 1, k => if x.denominator ≤ x.quarters * Nat.pow 10 k then k else below fuel (k + 1)

/-- The decimal with `n` digits that reads back as the fraction and lies nearest to
    it, if there is one. A tie goes to the even neighbour. -/
def onGrid (x : BinaryFraction) (n : Nat) : Option Decimal :=
  let exponent := x.magnitude - n
  let numerator := x.quarters * Nat.pow 10 (-exponent).toNat
  let divisor := x.denominator * Nat.pow 10 exponent.toNat
  let floor : Decimal := ⟨numerator / divisor, exponent⟩
  let ceiling : Decimal := ⟨numerator / divisor + 1, exponent⟩
  let rest := numerator % divisor
  match x.readsBack floor, x.readsBack ceiling with
  | true, false => some floor
  | false, true => some ceiling
  | false, false => none
  | true, true =>
    if 2 * rest < divisor then some floor
    else if divisor < 2 * rest then some ceiling
    else if floor.digits % 2 = 0 then some floor else some ceiling

/-- The shortest decimal that reads back as the fraction. Seventeen digits always do. -/
def shortest (x : BinaryFraction) : Decimal :=
  ((List.range 17).findSome? fun k => x.onGrid (k + 1)).getD ⟨0, 0⟩

end BinaryFraction

end Devicetree
