/-
Numbers read from text.

A real number is an optional sign followed by digits with an optional decimal point and an optional
exponent, or by the name of infinity or of not-a-number in any case.  An underscore may stand
between two digits, the digits may be those of any script, and white space around a number does
not count.  Numbers far outside the range of binary numbers are settled by their magnitude alone.

Main definitions:
* `readDigits` — the digits at the front of a text;
* `readReal?` — the real number that a text spells;
* `readInteger?` — the integer that a text spells;
* `unsignedReal?` — a number without sign, white space and underscores.
-/
import Cohesion.Number.Binary64
import Cohesion.Text.Digits

set_option autoImplicit false

namespace Cohesion

open Text

/-- What is said about an integer with more digits than the limit. -/
def hugeIntegerMessage (limit digits : Nat) : String :=
  s!"Exceeds the limit ({limit} digits) for integer string conversion: value has {digits} " ++
    "digits; use sys.set_int_max_str_digits() to increase the limit"

/-- The number that a list of ASCII digits spells. -/
def digitsValue (digits : List Char) : Nat :=
  digits.foldl (fun n c => 10 * n + (c.toNat - '0'.toNat)) 0

/-- The ASCII digits at the front of a text, and the rest. -/
def readDigits (cs : List Char) : List Char × List Char :=
  (cs.takeWhile Char.isDigit, cs.dropWhile Char.isDigit)

/-- Digits of any script as ASCII digits; other characters are kept. -/
def asciiDigits (cs : List Char) : List Char :=
  cs.map fun c => match digitValue? c with
    | some d => Nat.digitChar d
    | none => c

/-- The text without underscores, if each stands between two ASCII digits. -/
def dropUnderscores? : List Char → Option (List Char)
  | [] => some []
  | '_' :: _ => none
  | c :: '_' :: d :: rest =>
    if c.isDigit && d.isDigit then (dropUnderscores? (d :: rest)).map (c :: ·) else none
  | c :: rest => (dropUnderscores? rest).map (c :: ·)

/-- The number nearest to `coefficient * 10 ^ exponent`, where a magnitude beyond every finite
number or below every positive one is settled without computing the power. -/
def decimalReal (negative : Bool) (coefficient : Nat) (exponent : Int) : Binary64 :=
  let magnitude : Int := ((toString coefficient).length : Int) + exponent
  if coefficient == 0 || magnitude < -400 then .zero negative
  else if 400 < magnitude then .infinite negative
  else .ofDecimal negative coefficient exponent

/-- An exponent after its mark: an optional sign and at least one digit, to the end. -/
def readExponent? (cs : List Char) : Option Int :=
  let (negative, cs) := match cs with
    | '-' :: cs => (true, cs)
    | '+' :: cs => (false, cs)
    | cs => (false, cs)
  match readDigits cs with
  | (d :: ds, []) =>
    let n : Int := digitsValue (d :: ds)
    some (if negative then -n else n)
  | _ => none

/-- The digits of a number: those before and those after the decimal point, of which there is at
least one, and the rest. -/
def readMantissa? (cs : List Char) : Option (List Char × List Char × List Char) :=
  let (whole, rest) := readDigits cs
  let (decimals, rest) := match rest with
    | '.' :: rest => readDigits rest
    | rest => ([], rest)
  if whole.isEmpty && decimals.isEmpty then none else some (whole, decimals, rest)

/-- A number without sign, white space and underscores. -/
def unsignedReal? (negative : Bool) (cs : List Char) : Option Binary64 :=
  let name := cs.map Char.toLower
  if name == "nan".toList then some .nan
  else if name == "inf".toList || name == "infinity".toList then some (.infinite negative)
  else do
    let (whole, decimals, rest) ← readMantissa? cs
    let exponent ← match rest with
      | [] => some 0
      | 'e' :: rest => readExponent? rest
      | 'E' :: rest => readExponent? rest
      | _ => none
    some (decimalReal negative (digitsValue (whole ++ decimals)) (exponent - decimals.length))

/-- An optional sign, and the rest. -/
def readSign : List Char → Bool × List Char
  | '-' :: rest => (true, rest)
  | '+' :: rest => (false, rest)
  | rest => (false, rest)

/-- The real number that a text spells. -/
def readReal? (s : String) : Option Binary64 := do
  let cs ← dropUnderscores? (asciiDigits (trimBlanks s.toList))
  let (negative, cs) := readSign cs
  unsignedReal? negative cs

/-- The integer that a text spells. -/
def readInteger? (s : String) : Option Int := do
  let cs ← dropUnderscores? (asciiDigits (trimBlanks s.toList))
  let (negative, cs) := readSign cs
  match readDigits cs with
  | (d :: ds, []) =>
    let n : Int := digitsValue (d :: ds)
    some (if negative then -n else n)
  | _ => none

end Cohesion
