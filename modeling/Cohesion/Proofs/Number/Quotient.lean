/-
A rounded quotient depends on the quotient only.

The exponent of a quotient is found from the lengths of numerator and denominator, and these change
when both are multiplied by a number.  But the exponent is the only one at which the significand
has the right length, so it stays the same, and so does the rounded significand.

Main definitions:
* `Binary64.Overfull` — at an exponent the significand of a quotient has more than 53 bits.

Main results:
* `Binary64.exists_exponentFor` — the exponent is the first one that is not overfull;
* `Binary64.exists_exponentFor_bounds` — the quotient lies between two powers of two;
* `Binary64.nearest_mul_left`, `Binary64.ratio_mul_left` — **numerator and denominator multiplied
  by the same number have the same rounded quotient**.
-/
import Cohesion.Proofs.Number.Rounding
import Mathlib.Tactic.NormNum
import Mathlib.Tactic.Ring

set_option autoImplicit false

namespace Cohesion

theorem halfEven_mul_left {k : Nat} (hk : 0 < k) (num den : Nat) :
    halfEven (k * num) (k * den) = halfEven num den := by
  have hdiv : k * num / (k * den) = num / den := Nat.mul_div_mul_left _ _ hk
  have hmod : k * num % (k * den) = k * (num % den) := Nat.mul_mod_mul_left _ _ _
  have hdouble : 2 * (k * (num % den)) = k * (2 * (num % den)) := Nat.mul_left_comm _ _ _
  have hlt : k * den < k * (2 * (num % den)) ↔ den < 2 * (num % den) := Nat.mul_lt_mul_left hk
  have heq : k * (2 * (num % den)) = k * den ↔ 2 * (num % den) = den := Nat.mul_right_inj hk.ne'
  simp only [halfEven, hdiv, hmod, hdouble, hlt, Bool.beq_eq_decide_eq, heq]

/-- A power of two of either sign, as the fraction of the two powers that make it up. -/
theorem twoPow_eq_zpow_mul (e : Int) : (twoPow e : ℚ) = 2 ^ e * twoPow (-e) := by
  rcases Int.le_total 0 e with he | he
  · obtain ⟨n, rfl⟩ := Int.eq_ofNat_of_zero_le he
    rw [twoPow_of_nonpos (n := -(n : Int)) (by omega)]
    simp [twoPow]
  · obtain ⟨n, hn⟩ := Int.eq_ofNat_of_zero_le (Int.neg_nonneg_of_nonpos he)
    obtain rfl : e = -(n : Int) := by omega
    rw [twoPow_of_nonpos he]
    simp [twoPow]

namespace Binary64

/-- At this exponent the significand of the quotient has more than 53 bits. -/
def Overfull (num den : Nat) (e : Int) : Prop :=
  significandEnd * (den * twoPow e) ≤ num * twoPow (-e)

section

variable {num den : Nat}

theorem overfull_iff (e : Int) : Overfull num den e ↔ (2 : ℚ) ^ (53 + e) * den ≤ num := by
  have hpos : (0 : ℚ) < twoPow (-e) := by exact_mod_cast twoPow_pos (-e)
  have hend : (significandEnd : ℚ) = 2 ^ (53 : Int) := by
    have hnat : significandEnd = 2 ^ 53 := rfl
    norm_num [hnat]
  have hcast : Overfull num den e ↔
      (significandEnd : ℚ) * (den * twoPow e) ≤ num * twoPow (-e) := by
    rw [Overfull]
    exact_mod_cast Iff.rfl
  have hleft : (significandEnd : ℚ) * (den * twoPow e) =
      2 ^ (53 + e) * den * twoPow (-e) := by
    rw [hend, twoPow_eq_zpow_mul e, zpow_add₀ two_ne_zero]
    ring
  rw [hcast, hleft, mul_le_mul_iff_left₀ hpos]

/-- A significand that is too long at an exponent is too long at all smaller ones. -/
theorem Overfull.mono {e f : Int} (h : Overfull num den f) (hef : e ≤ f) : Overfull num den e := by
  rw [overfull_iff] at h ⊢
  refine le_trans (mul_le_mul_of_nonneg_right ?_ (Nat.cast_nonneg den)) h
  exact zpow_le_zpow_right₀ one_le_two (by omega)

/-- At most one exponent is not overfull while the one before it is. -/
theorem Overfull.unique {e f : Int} (he : ¬Overfull num den e) (he' : Overfull num den (e - 1))
    (hf : ¬Overfull num den f) (hf' : Overfull num den (f - 1)) : e = f := by
  rcases lt_trichotomy e f with hlt | heq | hlt
  · exact absurd (hf'.mono (by omega)) he
  · exact heq
  · exact absurd (he'.mono (by omega)) hf

variable (hnum : num ≠ 0) (hden : den ≠ 0)

include hnum hden

/-- The lengths of numerator and denominator tell the exponent up to one. -/
theorem overfull_log2 : ¬Overfull num den ((num.log2 : Int) - den.log2 - 52) ∧
    Overfull num den ((num.log2 : Int) - den.log2 - 54) := by
  have hnum₁ : (2 : ℚ) ^ (num.log2 : Int) ≤ num := by
    exact_mod_cast Nat.log2_self_le hnum
  have hnum₂ : (num : ℚ) < 2 ^ ((num.log2 : Int) + 1) := by
    exact_mod_cast Nat.lt_log2_self
  have hden₁ : (2 : ℚ) ^ (den.log2 : Int) ≤ den := by
    exact_mod_cast Nat.log2_self_le hden
  have hden₂ : (den : ℚ) < 2 ^ ((den.log2 : Int) + 1) := by
    exact_mod_cast Nat.lt_log2_self
  rw [overfull_iff, overfull_iff, not_le]
  constructor
  · calc (num : ℚ) < 2 ^ ((num.log2 : Int) + 1) := hnum₂
      _ = 2 ^ (53 + ((num.log2 : Int) - den.log2 - 52)) * 2 ^ (den.log2 : Int) := by
          rw [← zpow_add₀ two_ne_zero]
          congr 1
          omega
      _ ≤ 2 ^ (53 + ((num.log2 : Int) - den.log2 - 52)) * den :=
          mul_le_mul_of_nonneg_left hden₁ (zpow_nonneg zero_le_two _)
  · calc (2 : ℚ) ^ (53 + ((num.log2 : Int) - den.log2 - 54)) * den
        ≤ 2 ^ (53 + ((num.log2 : Int) - den.log2 - 54)) * 2 ^ ((den.log2 : Int) + 1) :=
          mul_le_mul_of_nonneg_left hden₂.le (zpow_nonneg zero_le_two _)
      _ = 2 ^ (num.log2 : Int) := by
          rw [← zpow_add₀ two_ne_zero]
          congr 1
          omega
      _ ≤ num := hnum₁

/-- The exponent of a quotient is the first one that is not overfull, or the least exponent. -/
theorem exists_exponentFor : ∃ e, exponentFor num den = max leastExponent e ∧
    ¬Overfull num den e ∧ Overfull num den (e - 1) := by
  obtain ⟨hbelow, habove⟩ := overfull_log2 hnum hden
  have hone : (num.log2 : Int) - den.log2 - 53 + 1 = (num.log2 : Int) - den.log2 - 52 := by omega
  have hback : (num.log2 : Int) - den.log2 - 52 - 1 = (num.log2 : Int) - den.log2 - 53 := by omega
  have hback' : (num.log2 : Int) - den.log2 - 53 - 1 = (num.log2 : Int) - den.log2 - 54 := by
    omega
  by_cases h : Overfull num den ((num.log2 : Int) - den.log2 - 53)
  · refine ⟨_, ?_, hbelow, hback ▸ h⟩
    rw [exponentFor, ← hone]
    exact congrArg (max leastExponent) (if_pos h)
  · refine ⟨_, ?_, h, hback' ▸ habove⟩
    rw [exponentFor]
    exact congrArg (max leastExponent) (if_neg h)

/-- At this exponent the quotient is below the power of two behind the longest significands, and it
is no less than half of that. -/
theorem exists_exponentFor_bounds : ∃ e, exponentFor num den = max leastExponent e ∧
    (num / den : ℚ) < 2 ^ (53 + e) ∧ (2 : ℚ) ^ (52 + e) ≤ num / den := by
  have hden' : (0 : ℚ) < den := by exact_mod_cast Nat.pos_of_ne_zero hden
  obtain ⟨e, heq, hfull, hbefore⟩ := exists_exponentFor hnum hden
  rw [overfull_iff, not_le, ← div_lt_iff₀ hden'] at hfull
  rw [overfull_iff, ← le_div_iff₀ hden', show 53 + (e - 1) = 52 + e by omega] at hbefore
  exact ⟨e, heq, hfull, hbefore⟩

theorem exponentFor_mul_left {k : Nat} (hk : 0 < k) :
    exponentFor (k * num) (k * den) = exponentFor num den := by
  have hsame : ∀ e, Overfull (k * num) (k * den) e ↔ Overfull num den e := by
    intro e
    rw [Overfull, Overfull, Nat.mul_assoc k den, Nat.mul_left_comm significandEnd,
      Nat.mul_assoc k num]
    exact Nat.mul_le_mul_left_iff hk
  obtain ⟨e, heq, he, he'⟩ := exists_exponentFor (Nat.mul_ne_zero hk.ne' hnum)
    (Nat.mul_ne_zero hk.ne' hden)
  obtain ⟨f, hfeq, hf, hf'⟩ := exists_exponentFor hnum hden
  rw [hsame] at he he'
  rw [heq, hfeq, Overfull.unique he he' hf hf']

end

/-- Numerator and denominator multiplied by the same number have the same nearest number. -/
theorem nearest_mul_left {k : Nat} (hk : 0 < k) (negative : Bool) (num : Nat) {den : Nat}
    (hden : den ≠ 0) : nearest negative (k * num) (k * den) = nearest negative num den := by
  by_cases hnum : num = 0
  · simp [nearest, hnum]
  · have hround : ∀ e, roundAt (k * num) (k * den) e = roundAt num den e := by
      intro e
      rw [roundAt, roundAt, Nat.mul_assoc, Nat.mul_assoc, halfEven_mul_left hk]
    have hzero : (k * num == 0) = (num == 0) := by
      simp [hnum, hk.ne']
    simp only [nearest, hzero, exponentFor_mul_left hnum hden hk, hround]

/-- **A rounded quotient depends on the quotient only.** -/
theorem ratio_mul_left {k : Int} (hk : 0 < k) (num den : Int) :
    ratio (k * num) (k * den) = ratio num den := by
  have hsign : ∀ n : Int, k * n < 0 ↔ n < 0 := fun n => by
    rw [Int.mul_neg_iff]
    omega
  by_cases hden : den = 0
  · subst hden
    simp [ratio]
  · have hden' : (k * den == 0) = (den == 0) := by simp [hden, hk.ne']
    have hnearest : ∀ s, nearest s (k * num).natAbs (k * den).natAbs =
        nearest s num.natAbs den.natAbs := by
      intro s
      rw [Int.natAbs_mul, Int.natAbs_mul]
      exact nearest_mul_left (Int.natAbs_pos.2 hk.ne') s _ (Int.natAbs_ne_zero.2 hden)
    simp only [ratio, hden', hsign, hnearest]

end Binary64

end Cohesion
