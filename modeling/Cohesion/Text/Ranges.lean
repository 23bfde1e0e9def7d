/-
Sets of characters written as boundaries.

A set of code points is given by the ascending list of the code points at which membership
changes: the first boundary opens the first range, the second one closes it, and so on.  A code
point belongs to the set exactly when the number of boundaries at or below it is odd.  Large
Unicode properties are a few hundred ranges, so a binary search answers in a dozen steps.

Main definitions:
* `Boundaries` — an ascending array of boundaries;
* `Boundaries.countUpTo` — how many boundaries lie at or below a code point;
* `Boundaries.contains` — membership, by the parity of that count.
-/

set_option autoImplicit false

namespace Cohesion.Text

/-- The code points at which membership in a set of characters changes, in ascending order. -/
structure Boundaries where
  /-- The boundaries. -/
  points : Array Nat

namespace Boundaries

/-- Binary search between positions `low` and `high`: the number of boundaries at or below
`code`, when all before `low` are at or below it and all from `high` on lie above it. -/
def search (b : Boundaries) (code : Nat) : Nat → Nat → Nat → Nat
  | 0, low, _ => low
  | fuel + 1, low, high =>
    if low < high then
      let middle := (low + high) / 2
      if b.points.getD middle 0 ≤ code then b.search code fuel (middle + 1) high
      else b.search code fuel low middle
    else low

/-- How many boundaries lie at or below `code`. -/
def countUpTo (b : Boundaries) (code : Nat) : Nat :=
  b.search code (b.points.size.log2 + 1) 0 b.points.size

/-- Membership: the number of boundaries at or below the character is odd. -/
def contains (b : Boundaries) (c : Char) : Bool :=
  b.countUpTo c.toNat % 2 == 1

end Boundaries

end Cohesion.Text
