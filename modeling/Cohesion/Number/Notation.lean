/-
Texts of numbers.

A number is written with the fewest digits that read back, either with a decimal point or with an
exponent; a notation says where the change is, and how the numbers that are not finite are
spelled.  A number can also be written with a fixed number of decimal places.

Main definitions:
* `NumberNotation` — the choices of a notation;
* `NumberNotation.plain`, `NumberNotation.json` — the notations in use;
* `NumberNotation.write` — a number in a notation;
* `fixed` — a number with a fixed number of places;
* `isWritable` — the integers that are written in messages.
-/
import Cohesion.Number.Shortest

set_option autoImplicit false

namespace Cohesion

/-- How numbers are written. -/
structure NumberNotation where
  /-- Numbers whose leading digit stands for a lesser power of ten have an exponent. -/
  leastPositional : Int
  /-- Numbers whose leading digit stands for a greater power of ten have an exponent. -/
  greatestPositional : Int
  /-- The least number of digits in an exponent. -/
  exponentDigits : Nat
  /-- The text of not-a-number. -/
  nan : String
  /-- The text of positive infinity. -/
  infinity : String

namespace NumberNotation

/-- Numbers from 10⁻⁴ up to below 10¹⁶ are written with a decimal point. -/
def plain : NumberNotation where
  leastPositional := -4
  greatestPositional := 15
  exponentDigits := 2
  nan := "nan"
  infinity := "inf"

/-- The plain notation with the spellings of JSON documents. -/
def json : NumberNotation := { plain with nan := "NaN", infinity := "Infinity" }

/-- The sign of a negative number. -/
def sign (negative : Bool) : List Char := if negative then ['-'] else []

/-- A power of ten after its mark: the sign is always written. -/
def writeExponent (n : NumberNotation) (power : Int) : List Char :=
  let digits := (toString power.natAbs).toList
  'e' :: (if power < 0 then '-' else '+') ::
    List.replicate (n.exponentDigits - digits.length) '0' ++ digits

/-- Digits of which the first stands for `10 ^ power`, with a decimal point: there is at least one
digit on either side of it. -/
def writePositional (digits : List Char) (power : Int) : List Char :=
  if power < 0 then '0' :: '.' :: List.replicate (-power - 1).toNat '0' ++ digits
  else
    let whole := power.toNat + 1
    let padded := digits ++ List.replicate (whole + 1 - digits.length) '0'
    padded.take whole ++ '.' :: padded.drop whole

/-- Digits of which the first stands for `10 ^ power`, with an exponent. -/
def writeScientific (n : NumberNotation) (digits : List Char) (power : Int) : List Char :=
  match digits with
  | [] => n.writeExponent power
  | [d] => d :: n.writeExponent power
  | d :: more => d :: '.' :: more ++ n.writeExponent power

/-- A number in the notation. -/
def write (n : NumberNotation) : Binary64 → String
  | .nan => n.nan
  | .infinite negative => String.ofList (sign negative ++ n.infinity.toList)
  | .finite negative significand exponent =>
    let d := shortestDecimal significand exponent
    let digits := (toString d.coefficient).toList
    let power : Int := d.exponent + digits.length - 1
    let body :=
      if n.leastPositional ≤ power && power ≤ n.greatestPositional then writePositional digits power
      else n.writeScientific digits power
    String.ofList (sign negative ++ body)

end NumberNotation

/-- A number with `places` decimal places, rounded to the nearest, a tie to the even last digit. -/
def fixed (places : Nat) : Binary64 → String
  | .nan => NumberNotation.plain.nan
  | .infinite negative => (NumberNotation.plain.write (.infinite negative))
  | .finite negative significand exponent =>
    let scaled := halfEven (significand * twoPow exponent * tenPow places) (twoPow (-exponent))
    let digits := (toString scaled).toList
    let padded := List.replicate (places + 1 - digits.length) '0' ++ digits
    let whole := padded.length - places
    let point := if places == 0 then [] else '.' :: padded.drop whole
    String.ofList (NumberNotation.sign negative ++ padded.take whole ++ point)

/-- The most digits with which an integer is written. -/
def writtenDigitLimit : Nat := 4300

/-- An integer has few enough digits to be written. -/
def isWritable (n : Int) : Bool := n.natAbs < Nat.pow 10 writtenDigitLimit

/-- What is said where an integer with too many digits should be written. -/
def unwritableMessage : String :=
  s!"Exceeds the limit ({writtenDigitLimit} digits) for integer string conversion; " ++
    "use sys.set_int_max_str_digits() to increase the limit"

end Cohesion
