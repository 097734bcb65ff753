/-
TermRules.Decimal.Shortest — the shortest decimal that reads back as a number.

A finite positive number `m * 2 ^ q` owns an interval of reals that round to
it, with its ends included exactly when `m` is even. Of the decimal grids with
1, 2, … 17 significant digits the first one with a point in the interval wins,
and of two such points the nearer, an exact tie going to the larger. It is
enough to look at the two grid neighbours of the number: if any grid point
lies in the interval, one of those does.
-/
import TermRules.Binary64

namespace TermRules

/-- The positive decimal `digits * 10 ^ exponent`. -/
structure Decimal where
  digits : Nat
  exponent : Int

namespace Decimal

/-- Drops trailing zeros of the digits into the exponent. -/
def trim (d : Decimal) : Decimal :=
  if h : d.digits ≠ 0 ∧ d.digits % 10 = 0 then
    trim ⟨d.digits / 10, d.exponent + 1⟩
  else d
termination_by d.digits
decreasing_by omega

end Decimal

/-- A number between the ends of the interval that rounds to it, the three of
them over one denominator. -/
structure RoundingInterval where
  low : Nat
  value : Nat
  high : Nat
  denominator : Nat
  closed : Bool

namespace RoundingInterval

/-- The interval of a finite nonzero magnitude. In quarters of a unit in the
last place the number is `4 m`, the upper end two quarters away, and the lower
end two quarters or, where the steps below are finer, one. -/
def ofMagnitude (x : Binary64) : RoundingInterval :=
  let quarters := 4 * x.significand
  let exponent := x.scale - 2
  let unit := Nat.pow 2 exponent.toNat
  { low := (quarters - if x.finerBelow then 1 else 2) * unit
    value := quarters * unit
    high := (quarters + 2) * unit
    denominator := Nat.pow 2 (-exponent).toNat
    closed := x.significand % 2 == 0 }

/-- Whether `digits * 10 ^ exponent` lies in the interval. -/
def contains (i : RoundingInterval) (digits : Nat) (exponent : Int) : Bool :=
  let point := digits * Nat.pow 10 exponent.toNat * i.denominator
  let unit := Nat.pow 10 (-exponent).toNat
  if i.closed then i.low * unit ≤ point && point ≤ i.high * unit
  else i.low * unit < point && point < i.high * unit

/-- The nearest point of the grid of multiples of `10 ^ exponent`, if one of
the two neighbours of the number lies in the interval. -/
def nearest? (i : RoundingInterval) (exponent : Int) : Option Decimal :=
  let numerator := i.value * Nat.pow 10 (-exponent).toNat
  let divisor := i.denominator * Nat.pow 10 exponent.toNat
  let below := numerator / divisor
  match i.contains below exponent, i.contains (below + 1) exponent with
  | true, true =>
    if 2 * numerator < (2 * below + 1) * divisor then some ⟨below, exponent⟩
    else some ⟨below + 1, exponent⟩
  | true, false => some ⟨below, exponent⟩
  | false, true => some ⟨below + 1, exponent⟩
  | false, false => none

/-- The place `p` with `10 ^ (p - 1) ≤ value < 10 ^ p`. No number here is
below `10 ^ -340`, so shifting by that much leaves an integer part to count. -/
def magnitude (i : RoundingInterval) : Int :=
  (Nat.toDigits 10 (i.value * Nat.pow 10 340 / i.denominator)).length - 340

/-- The first grid with a hit; seventeen digits always suffice. -/
def shortest (i : RoundingInterval) : Decimal :=
  let place := i.magnitude
  let hit := (List.range 17).findSome? fun k => i.nearest? (place - (k + 1 : Nat))
  (hit.getD ⟨0, 0⟩).trim

end RoundingInterval

/-- The shortest decimal that reads back as the magnitude of `x`, which is
finite and not zero. -/
def Binary64.shortestDecimal (x : Binary64) : Decimal :=
  (RoundingInterval.ofMagnitude x).shortest

end TermRules
