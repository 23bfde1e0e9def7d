/-
Binary floating-point numbers of 64 bits, computed exactly and rounded once.

A finite number is a sign, a whole significand and a power of two.  Every operation here takes the
exact rational result of its operands and rounds it to the nearest representable number, a tie
going to the even significand; results too large become infinite.  So all arithmetic is arithmetic
of natural numbers followed by one call of `nearest`, and comparisons are comparisons of integers.

Main definitions:
* `Binary64` — the numbers, with both zeros, both infinities and one not-a-number;
* `twoPow`, `tenPow` — powers of two and of ten;
* `halfEven` — a quotient of natural numbers rounded to the nearest, ties to even;
* `Binary64.nearest` — the number nearest to a fraction;
* `Binary64.ratio` — the quotient of two integers, rounded once;
* `Binary64.fraction?` — the exact value of a finite number;
* `Binary64.lt`, `Binary64.eq` — numeric comparison;
* `Binary64.mul`, `Binary64.div` — product and quotient.
-/

set_option autoImplicit false

namespace Cohesion

/-- The quotient of two natural numbers rounded to the nearest, a tie to the even one. -/
def halfEven (num den : Nat) : Nat :=
  let q := num / den
  let r := num % den
  if den < 2 * r || (2 * r == den && q % 2 == 1) then q + 1 else q

/-- Two to a power, one for a negative power. -/
def twoPow (n : Int) : Nat := Nat.pow 2 n.toNat

/-- Ten to a power, one for a negative power. -/
def tenPow (n : Int) : Nat := Nat.pow 10 n.toNat

/-- A binary floating-point number of 64 bits. -/
inductive Binary64 where
  /-- The number `significand * 2 ^ exponent`, negated if `negative`. -/
  | finite (negative : Bool) (significand : Nat) (exponent : Int)
  /-- A number beyond the largest finite one. -/
  | infinite (negative : Bool)
  /-- Not a number. -/
  | nan
  deriving DecidableEq, Repr

namespace Binary64

/-- The least exponent of a finite number. -/
def leastExponent : Int := -1074

/-- The greatest exponent of a finite number. -/
def greatestExponent : Int := 971

/-- The least significand of full length: 53 bits. -/
def leastFull : Nat := twoPow 52

/-- The least number that is too large for a significand. -/
def significandEnd : Nat := twoPow 53

/-- Zero with a sign. -/
def zero (negative : Bool) : Binary64 := .finite negative 0 leastExponent

instance : Inhabited Binary64 := ⟨zero false⟩

/-- The number `num / den * 2 ^ (-exponent)` as a quotient of natural numbers, rounded. -/
def roundAt (num den : Nat) (exponent : Int) : Nat :=
  halfEven (num * twoPow (-exponent)) (den * twoPow exponent)

/-- The exponent at which the significand of `num / den` has 53 bits, or the least exponent. -/
def exponentFor (num den : Nat) : Int :=
  let low : Int := (num.log2 : Int) - (den.log2 : Int) - 53
  let wide := significandEnd * (den * twoPow low) ≤ num * twoPow (-low)
  max leastExponent (if wide then low + 1 else low)

/-- The number nearest to the fraction `num / den`, for a positive denominator. -/
def nearest (negative : Bool) (num den : Nat) : Binary64 :=
  if num == 0 then zero negative
  else
    let exponent := exponentFor num den
    let significand := roundAt num den exponent
    let (significand, exponent) :=
      if significand == significandEnd then (leastFull, exponent + 1) else (significand, exponent)
    if greatestExponent < exponent then .infinite negative
    else .finite negative significand exponent

/-- The quotient of two integers, rounded once; a zero divisor gives no number. The quotient zero
has the sign of the divisor. -/
def ratio (num den : Int) : Binary64 :=
  if den == 0 then .nan
  else nearest (decide (num < 0) != decide (den < 0)) num.natAbs den.natAbs

/-- The number nearest to an integer. -/
def ofInt (n : Int) : Binary64 := ratio n 1

/-- The number nearest to `coefficient * 10 ^ exponent`. -/
def ofDecimal (negative : Bool) (coefficient : Nat) (exponent : Int) : Binary64 :=
  nearest negative (coefficient * tenPow exponent) (tenPow (-exponent))

/-- Neither infinite nor not-a-number. -/
def isFinite : Binary64 → Bool
  | .finite _ _ _ => true
  | _ => false

/-- The exact value of a finite number, as a fraction. -/
def fraction? : Binary64 → Option (Int × Nat)
  | .finite negative significand exponent =>
    let num := significand * twoPow exponent
    some (if negative then -(num : Int) else num, twoPow (-exponent))
  | _ => none

/-- Strictly less; not-a-number is not comparable. -/
def lt : Binary64 → Binary64 → Bool
  | .nan, _ => false
  | _, .nan => false
  | .infinite s, .infinite t => s && !t
  | .infinite s, .finite _ _ _ => s
  | .finite _ _ _, .infinite t => !t
  | a@(.finite _ _ _), b@(.finite _ _ _) =>
    match a.fraction?, b.fraction? with
    | some (n, d), some (m, e) => n * e < m * d
    | _, _ => false

/-- Numerically equal: the two zeros are equal, not-a-number equals nothing. -/
def eq : Binary64 → Binary64 → Bool
  | .nan, _ => false
  | _, .nan => false
  | .infinite s, .infinite t => s == t
  | a@(.finite _ _ _), b@(.finite _ _ _) =>
    match a.fraction?, b.fraction? with
    | some (n, d), some (m, e) => n * e == m * d
    | _, _ => false
  | _, _ => false

/-- The sign bit. -/
def isNegative : Binary64 → Bool
  | .finite negative _ _ => negative
  | .infinite negative => negative
  | .nan => false

/-- The product, rounded once. -/
def mul : Binary64 → Binary64 → Binary64
  | .finite s m e, .finite t n f =>
    nearest (s != t) (m * n * twoPow (e + f)) (twoPow (-(e + f)))
  | .nan, _ => .nan
  | _, .nan => .nan
  | .infinite s, .infinite t => .infinite (s != t)
  | .infinite s, .finite t n _ => if n == 0 then .nan else .infinite (s != t)
  | .finite s m _, .infinite t => if m == 0 then .nan else .infinite (s != t)

/-- The quotient, rounded once. -/
def div : Binary64 → Binary64 → Binary64
  | .finite s m e, .finite t n f =>
    if n == 0 then (if m == 0 then .nan else .infinite (s != t))
    else nearest (s != t) (m * twoPow (e - f)) (n * twoPow (f - e))
  | .nan, _ => .nan
  | _, .nan => .nan
  | .infinite _, .infinite _ => .nan
  | .infinite s, .finite t _ _ => .infinite (s != t)
  | .finite s _ _, .infinite t => zero (s != t)

/-- The least integer that is not less than a finite number. -/
def ceil? (x : Binary64) : Option Int :=
  x.fraction?.map fun (n, d) => -(-n / (d : Int))

/-- A finite number without its fractional part. -/
def truncate? (x : Binary64) : Option Int :=
  x.fraction?.map fun (n, d) => n.tdiv d

/-- A finite number to the nearest multiple of `10 ^ (-places)`, a tie to the even one; other
numbers are kept. -/
def roundTo (places : Nat) : Binary64 → Binary64
  | .finite negative significand exponent =>
    let scaled := halfEven (significand * twoPow exponent * tenPow places) (twoPow (-exponent))
    nearest negative scaled (tenPow places)
  | x => x

end Binary64

end Cohesion
