/-
The order of floating-point numbers.

A number other than not-a-number has a value: a fraction, or one of the two infinities as an end
beyond all fractions.  Numbers are compared as their values are, so the comparisons obey the laws
of a linear order as long as not-a-number stays out; with it, every comparison is false.

Main definitions:
* `Binary64.value?` — the value of a number;
* `Binary64.le` — numerically less or equal.

Main results:
* `Binary64.lt_iff`, `Binary64.le_iff` — numbers are compared by their values;
* `Binary64.lt_of_le_of_lt` — a number that is not greater is less than what is greater.
-/
import Cohesion.Number.Binary64
import Mathlib.Algebra.Order.Field.Basic
import Mathlib.Data.Rat.Cast.Order
import Mathlib.Order.WithBot

set_option autoImplicit false

namespace Cohesion

theorem twoPow_pos (n : Int) : 0 < twoPow n := Nat.pow_pos Nat.two_pos

namespace Binary64

/-- The value of a number, none for not-a-number. -/
def value? : Binary64 → Option (WithBot (WithTop ℚ))
  | x@(.finite _ _ _) => x.fraction?.map fun (n, d) => ((n / d : ℚ) : WithTop ℚ)
  | .infinite true => some ⊥
  | .infinite false => some ⊤
  | .nan => none

/-- Less or equal; not-a-number is not comparable. -/
def le (a b : Binary64) : Bool := a.lt b || a.eq b

/-- The fraction of a finite number has a positive denominator. -/
theorem exists_fraction (s : Bool) (k : Nat) (e : Int) :
    ∃ n d, 0 < d ∧ (finite s k e).fraction? = some (n, d) :=
  ⟨_, _, twoPow_pos _, rfl⟩

/-- Numbers that have values are compared as these are. -/
theorem lt_eq_of_value? {a b : Binary64} {x y : WithBot (WithTop ℚ)} (hx : a.value? = some x)
    (hy : b.value? = some y) : (a.lt b = true ↔ x < y) ∧ (a.eq b = true ↔ x = y) := by
  cases a with
  | nan => cases hx
  | infinite s =>
      cases b with
      | nan => cases hy
      | infinite t => cases s <;> cases t <;> cases hx <;> cases hy <;> simp [lt, eq]
      | finite t l f =>
          obtain ⟨p, q, -, hfrac⟩ := exists_fraction t l f
          rw [value?, hfrac] at hy
          cases hy
          cases s <;> cases hx <;> simp [lt, eq, WithTop.top_ne_coe]
  | finite s k e =>
      obtain ⟨n, d, hd, hfrac⟩ := exists_fraction s k e
      rw [value?, hfrac] at hx
      cases hx
      cases b with
      | nan => cases hy
      | infinite t =>
          have htop : (((n / d : ℚ) : WithTop ℚ) : WithBot (WithTop ℚ)) < ⊤ :=
            WithBot.coe_lt_coe.2 (WithTop.coe_lt_top _)
          cases t <;> cases hy <;> simp [lt, eq, htop, htop.ne]
      | finite t l f =>
          obtain ⟨p, q, hq, hfrac'⟩ := exists_fraction t l f
          rw [value?, hfrac'] at hy
          cases hy
          have hd' : (0 : ℚ) < d := by exact_mod_cast hd
          have hq' : (0 : ℚ) < q := by exact_mod_cast hq
          have hlt : (n / d : ℚ) < p / q ↔ n * q < p * d := by
            rw [div_lt_div_iff₀ hd' hq']
            exact_mod_cast Iff.rfl
          have heq : (n / d : ℚ) = p / q ↔ n * q = p * d := by
            rw [div_eq_div_iff hd'.ne' hq'.ne']
            exact_mod_cast Iff.rfl
          rw [WithBot.coe_lt_coe, WithTop.coe_lt_coe, WithBot.coe_inj, WithTop.coe_inj, hlt, heq]
          simp [lt, eq, hfrac, hfrac']

/-- Only numbers that have values are comparable. -/
theorem exists_value?_of_le {a b : Binary64} (h : a.le b = true) :
    ∃ x y, a.value? = some x ∧ b.value? = some y := by
  have hnan : ∀ c : Binary64, c ≠ nan → ∃ x, c.value? = some x := by
    intro c hc
    cases c with
    | nan => exact absurd rfl hc
    | infinite s => cases s <;> exact ⟨_, rfl⟩
    | finite s k e => exact ⟨_, rfl⟩
  obtain ⟨x, hx⟩ := hnan a (by rintro rfl; cases h)
  obtain ⟨y, hy⟩ := hnan b (by rintro rfl; cases a <;> cases h)
  exact ⟨x, y, hx, hy⟩

/-- Less or equal is less or equal of the values. -/
theorem le_iff {a b : Binary64} : a.le b = true ↔ ∃ x ∈ a.value?, ∃ y ∈ b.value?, x ≤ y := by
  constructor
  · intro h
    obtain ⟨x, y, hx, hy⟩ := exists_value?_of_le h
    obtain ⟨hlt, heq⟩ := lt_eq_of_value? hx hy
    rw [le, Bool.or_eq_true, hlt, heq] at h
    exact ⟨x, hx, y, hy, le_iff_lt_or_eq.2 h⟩
  · rintro ⟨x, hx, y, hy, hxy⟩
    obtain ⟨hlt, heq⟩ := lt_eq_of_value? hx hy
    rw [le, Bool.or_eq_true, hlt, heq]
    exact hxy.lt_or_eq

/-- Less is less of the values. -/
theorem lt_iff {a b : Binary64} : a.lt b = true ↔ ∃ x ∈ a.value?, ∃ y ∈ b.value?, x < y := by
  constructor
  · intro h
    obtain ⟨x, y, hx, hy⟩ := exists_value?_of_le (a := a) (b := b) (by rw [le, h, Bool.true_or])
    exact ⟨x, hx, y, hy, (lt_eq_of_value? hx hy).1.1 h⟩
  · rintro ⟨x, hx, y, hy, hxy⟩
    exact (lt_eq_of_value? hx hy).1.2 hxy

/-- A number that is not greater than another one is less than what is greater than that. -/
theorem lt_of_le_of_lt {a b c : Binary64} (hab : a.le b = true) (hbc : b.lt c = true) :
    a.lt c = true := by
  obtain ⟨x, hx, y, hy, hxy⟩ := le_iff.1 hab
  obtain ⟨y', hy', z, hz, hyz⟩ := lt_iff.1 hbc
  obtain rfl := Option.mem_unique hy hy'
  exact lt_iff.2 ⟨x, hx, z, hz, hxy.trans_lt hyz⟩

end Binary64

end Cohesion
