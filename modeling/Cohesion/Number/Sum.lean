/-
Sums of integers.

Main definitions:
* `sumOf` — the sum of a list.
-/

set_option autoImplicit false

namespace Cohesion

/-- The sum of a list of integers. -/
def sumOf : List Int → Int
  | [] => 0
  | n :: rest => n + sumOf rest

end Cohesion
