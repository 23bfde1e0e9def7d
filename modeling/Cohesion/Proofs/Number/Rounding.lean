/-
Rounding.

A quotient of natural numbers is rounded to a whole significand, whose exponent is chosen from the
lengths of both numbers.  A quotient that is at most one is not rounded to more than one, because
one is among the numbers it can be rounded to at that exponent.

Main results:
* `halfEven_le` — a quotient that is at most a natural number is rounded to at most that;
* `Binary64.exists_nearest` — the significand and the exponent of a quotient that is at most one;
* `Binary64.ratio_mem_unit` — the quotient of a natural number and one not less is between zero and
  one.
-/
import Cohesion.Proofs.Number.Order

set_option autoImplicit false

namespace Cohesion

theorem halfEven_le {num den k : Nat} (hden : 0 < den) (h : num ≤ k * den) :
    halfEven num den ≤ k := by
  have hdivision := Nat.div_add_mod num den
  have hq : num / den ≤ k := Nat.div_le_of_le_mul (by rwa [Nat.mul_comm])
  simp only [halfEven]
  split
  · rename_i hup
    -- only a quotient with a remainder is rounded up
    have hrem : 0 < num % den := by
      rw [Bool.or_eq_true, Bool.and_eq_true, decide_eq_true_eq, beq_iff_eq] at hup
      omega
    rcases hq.lt_or_eq with hlt | heq
    · omega
    · rw [heq, Nat.mul_comm] at hdivision
      omega
  · exact hq

theorem twoPow_of_nonpos {n : Int} (h : n ≤ 0) : twoPow n = 1 := by
  rw [twoPow, Int.toNat_of_nonpos h]

theorem twoPow_succ {n : Int} (h : 0 ≤ n) : twoPow (n + 1) = 2 * twoPow n := by
  obtain ⟨k, rfl⟩ := Int.eq_ofNat_of_zero_le h
  exact Nat.pow_succ'

namespace Binary64

theorem exponentFor_le {num den : Nat} (hnum : num ≠ 0) (h : num ≤ den) :
    exponentFor num den ≤ -52 := by
  have hlog : num.log2 ≤ den.log2 :=
    (Nat.le_log2 (by omega)).2 (((Nat.le_log2 hnum).1 le_rfl).trans h)
  simp only [exponentFor, leastExponent]
  split <;> omega

/-- A quotient that is at most one is rounded to a significand that is at most one at its
exponent. -/
theorem exists_nearest {num den : Nat} (h : num ≤ den) (hden : 0 < den) :
    ∃ k e, nearest false num den = finite false k e ∧ e ≤ 0 ∧ k ≤ twoPow (-e) := by
  by_cases hnum : num = 0
  · subst hnum
    exact ⟨0, leastExponent, rfl, by decide, Nat.zero_le _⟩
  have he := exponentFor_le hnum h
  have hround : roundAt num den (exponentFor num den) ≤ twoPow (-exponentFor num den) := by
    refine halfEven_le (Nat.mul_pos hden (twoPow_pos _)) ?_
    rw [twoPow_of_nonpos (n := exponentFor num den) (by omega), Nat.mul_one, Nat.mul_comm]
    exact Nat.mul_le_mul_left _ h
  by_cases hend : roundAt num den (exponentFor num den) = significandEnd
  · -- a significand that is too long is the least one of full length at the next exponent
    have hbound : ¬greatestExponent < exponentFor num den + 1 := by
      rw [greatestExponent]
      omega
    refine ⟨leastFull, exponentFor num den + 1, ?_, by omega, ?_⟩
    · simp [nearest, hnum, hend, hbound]
    · have hneg : -exponentFor num den = -(exponentFor num den + 1) + 1 := by omega
      have hdouble : significandEnd = 2 * leastFull := rfl
      rw [hend, hneg, twoPow_succ (by omega), hdouble] at hround
      omega
  · have hbound : ¬greatestExponent < exponentFor num den := by
      rw [greatestExponent]
      omega
    exact ⟨_, exponentFor num den, by simp [nearest, hnum, hend, hbound], by omega, hround⟩

theorem value?_of_nonpos {e : Int} (he : e ≤ 0) (k : Nat) :
    (finite false k e).value? = some ((((k : ℚ) / twoPow (-e) : ℚ) : WithTop ℚ)) := by
  simp [value?, fraction?, twoPow_of_nonpos he]

/-- A natural number divided by one that is not less is rounded to a number from zero to one. -/
theorem ratio_mem_unit {num den : Int} (hnum : 0 ≤ num) (h : num ≤ den) (hden : 0 < den) :
    (zero false).le (ratio num den) = true ∧ (ratio num den).le (ofInt 1) = true := by
  have habs : num.natAbs ≤ den.natAbs := by omega
  obtain ⟨k, e, hk, he, hle⟩ := exists_nearest habs (by omega)
  have hratio : ratio num den = finite false k e := by
    simp [ratio, hden.ne', not_lt.2 hnum, not_lt.2 hden.le, hk]
  have hone : ofInt 1 = finite false leastFull (-52) := by decide +kernel
  have hpos : (0 : ℚ) < twoPow (-e) := by exact_mod_cast twoPow_pos (-e)
  rw [hratio, hone, zero, le_iff, le_iff, value?_of_nonpos he, value?_of_nonpos (by decide),
    value?_of_nonpos (by decide)]
  refine ⟨⟨_, rfl, _, rfl, ?_⟩, ⟨_, rfl, _, rfl, ?_⟩⟩
  · rw [WithBot.coe_le_coe, WithTop.coe_le_coe, Nat.cast_zero, zero_div]
    exact div_nonneg (Nat.cast_nonneg _) (Nat.cast_nonneg _)
  · rw [WithBot.coe_le_coe, WithTop.coe_le_coe]
    have hfull : twoPow (- -52) = leastFull := rfl
    have hleast : (leastFull : ℚ) ≠ 0 := by exact_mod_cast (twoPow_pos 52).ne'
    rw [hfull, div_self hleast, div_le_one hpos]
    exact_mod_cast hle

end Binary64

end Cohesion
