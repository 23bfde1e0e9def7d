/-
Equality of JSON values.

Numbers and truth values are equal when their exact values are, whatever their form; not-a-number
equals nothing.  The order of an object's members does not matter.

Main definitions:
* `Json.fraction?` — the exact value of a finite number;
* `Json.same` — the equality.
-/
import Cohesion.Json.Value

set_option autoImplicit false

namespace Cohesion.Json

/-- The exact value of a finite number or a truth value, as a fraction. -/
def fraction? : Json → Option (Int × Nat)
  | .bool b => some (if b then 1 else 0, 1)
  | .int n => some (n, 1)
  | .real x => x.fraction?
  | _ => none

/-- Two values have the same exact value. -/
def sameNumber (a b : Json) : Bool :=
  match a.fraction?, b.fraction? with
  | some (n, d), some (m, e) => n * e == m * d
  | _, _ => false

mutual

/-- Two values are equal. -/
def same : Json → Json → Bool
  | .null, .null => true
  | .str s, .str t => s == t
  | .arr xs, .arr ys => sameItems xs ys
  | .obj xs, .obj ys => xs.length == ys.length && sameMembers xs ys
  | .real (.infinite s), .real (.infinite t) => s == t
  | a, b => sameNumber a b

/-- Two lists have equal values in the same places. -/
def sameItems : List Json → List Json → Bool
  | [], [] => true
  | x :: xs, y :: ys => same x y && sameItems xs ys
  | _, _ => false

/-- Every member of the first list has its equal under the same name in the second. -/
def sameMembers : List (String × Json) → List (String × Json) → Bool
  | [], _ => true
  | (name, x) :: xs, ys =>
    (match ys.lookup name with
      | some y => same x y
      | none => false) && sameMembers xs ys

end

end Cohesion.Json
