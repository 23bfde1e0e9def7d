/-
The shortest decimal that reads back as a given binary number.

The reals that round to a number form an interval around it, with its ends included exactly when
the significand is even.  For one, two, up to seventeen digits the two neighbours of the number on
the grid of decimals with that many digits are tested; the first grid with a neighbour inside the
interval gives the answer, the nearer neighbour if both are inside.  If any point of a grid lies in
the interval, so does one of the two neighbours, so no shorter decimal reads back.

Main definitions:
* `Decimal` — a coefficient and a power of ten;
* `Interval` — the number and the ends of its interval over one denominator;
* `shortestDecimal` — the shortest decimal in the interval.
-/
import Cohesion.Number.Binary64

set_option autoImplicit false

namespace Cohesion

/-- The decimal `coefficient * 10 ^ exponent`. -/
structure Decimal where
  /-- The digits, as a natural number. -/
  coefficient : Nat
  /-- The power of ten. -/
  exponent : Int
  deriving DecidableEq, Repr

/-- A positive number between the ends of the interval of reals that round to it, all three over
the denominator `unit`. -/
structure Interval where
  /-- The lower end. -/
  low : Nat
  /-- The number. -/
  mid : Nat
  /-- The upper end. -/
  high : Nat
  /-- The denominator. -/
  unit : Nat
  /-- The ends belong to the interval. -/
  closed : Bool

namespace Interval

/-- The interval of the number `significand * 2 ^ exponent`. The gap below a power of two is half
as wide as the gap above it. -/
def around (significand : Nat) (exponent : Int) : Interval :=
  let scale := twoPow (exponent - 2)
  let narrow := significand == Binary64.leastFull && decide (Binary64.leastExponent < exponent)
  { low := (4 * significand - (if narrow then 1 else 2)) * scale
    mid := 4 * significand * scale
    high := (4 * significand + 2) * scale
    unit := twoPow (2 - exponent)
    closed := significand % 2 == 0 }

/-- The point `c` on the grid of multiples of `10 ^ k` lies inside. -/
def contains (i : Interval) (c : Nat) (k : Int) : Bool :=
  let point := c * tenPow k * i.unit
  let fine := tenPow (-k)
  if i.closed then i.low * fine ≤ point && point ≤ i.high * fine
  else i.low * fine < point && point < i.high * fine

/-- The multiple of `10 ^ k` just at or below the number. -/
def floorAt (i : Interval) (k : Int) : Nat :=
  i.mid * tenPow (-k) / (i.unit * tenPow k)

/-- The number lies strictly nearer to the grid point `c + 1` than to `c`, or halfway with `c`
odd. -/
def nearerAbove (i : Interval) (c : Nat) (k : Int) : Bool :=
  let twice := 2 * (i.mid * tenPow (-k))
  let middle := (2 * c + 1) * (i.unit * tenPow k)
  middle < twice || (middle == twice && c % 2 == 1)

/-- A neighbour of the number on the grid of multiples of `10 ^ k` that lies inside. -/
def neighbour? (i : Interval) (k : Int) : Option Nat :=
  let c := i.floorAt k
  match i.contains c k, i.contains (c + 1) k with
  | true, true => some (if i.nearerAbove c k then c + 1 else c)
  | true, false => some c
  | false, true => some (c + 1)
  | false, false => none

/-- The power of ten at or below the number, found from an estimate that is at most one off. -/
def magnitude (i : Interval) (estimate : Int) : Int :=
  let reaches (p : Int) : Bool := i.unit * tenPow p ≤ i.mid * tenPow (-p)
  if reaches (estimate + 1) then estimate + 1
  else if reaches estimate then estimate
  else estimate - 1

/-- The first neighbour found on the grids from `10 ^ k` on, each ten times finer. -/
def firstNeighbour (i : Interval) : Nat → Int → Decimal
  | 0, k => ⟨i.floorAt k, k⟩
  | more + 1, k =>
    match i.neighbour? k with
    | some c => ⟨c, k⟩
    | none => i.firstNeighbour more (k - 1)

end Interval

/-- Moves the zeros at the end of the coefficient into the exponent. -/
def Decimal.stripZeros (d : Decimal) : Nat → Decimal
  | 0 => d
  | fuel + 1 =>
    if d.coefficient != 0 && d.coefficient % 10 == 0 then
      Decimal.stripZeros ⟨d.coefficient / 10, d.exponent + 1⟩ fuel
    else d

/-- The shortest decimal that reads back as `significand * 2 ^ exponent`. -/
def shortestDecimal (significand : Nat) (exponent : Int) : Decimal :=
  if significand == 0 then ⟨0, 0⟩
  else
    let i := Interval.around significand exponent
    let estimate := ((significand.log2 : Int) + exponent) * 30103 / 100000
    let d := i.firstNeighbour 17 (i.magnitude estimate)
    d.stripZeros (d.coefficient.log2 + 1)

end Cohesion
