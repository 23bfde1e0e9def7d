/-
Numbers of moderate size.

A number beyond the largest finite one becomes infinite.  Shares of words do not come near that:
a quotient of a word is at most `2 ^ 64`, and neither dividing it by a number of things nor rounding
it to decimal places makes it larger, since `2 ^ 64` is a number itself and rounding does not pass
it.

Main definitions:
* `Binary64.Moderate` — a number is finite, and at most `2 ^ 64` but for its sign.

Main results:
* `Binary64.moderate_nearest` — a fraction is rounded to a moderate number if it is at most `2 ^ 64`;
* `Binary64.one_le_ofInt` — a positive integer is rounded to no less than one;
* `Binary64.moderate_ratio`, `Binary64.moderate_div`, `Binary64.moderate_roundTo` — **quotients and
  rounded numbers are moderate**.
-/
import Cohesion.Proofs.Number.Canonical

set_option autoImplicit false

namespace Cohesion.Binary64

/-- A number is finite, and at most `2 ^ 64` but for its sign. -/
inductive Moderate : Binary64 → Prop where
  /-- The bound is on the significand times its power of two. -/
  | finite (s : Bool) {k : Nat} {e : Int} (h : (k * 2 ^ e : ℚ) ≤ 2 ^ 64) : Moderate (.finite s k e)

theorem Moderate.isFinite {x : Binary64} (h : x.Moderate) : x.isFinite = true := by
  cases h
  rfl

theorem moderate_zero (s : Bool) : (zero s).Moderate := .finite s (by norm_num)

variable {num den : Nat}

theorem exponentFor_le_twelve (hnum : num ≠ 0) (hden : 0 < den) (h : (num / den : ℚ) ≤ 2 ^ 64) :
    exponentFor num den ≤ 12 := by
  refine exponentFor_le_of_le (k := leastFull) (f := 12) hnum hden (by decide) (by decide) ?_
  have hfull : (leastFull : ℚ) = 2 ^ 52 := by exact_mod_cast (rfl : leastFull = 2 ^ 52)
  rw [hfull]
  norm_num at h ⊢
  exact h

/-- A fraction is rounded to a moderate number if it is at most `2 ^ 64`. -/
theorem moderate_nearest (s : Bool) (hden : 0 < den) (h : (num / den : ℚ) ≤ 2 ^ 64) :
    (nearest s num den).Moderate := by
  by_cases hnum : num = 0
  · subst hnum
    exact moderate_zero s
  · have hexp := exponentFor_le_twelve hnum hden h
    have hgreatest : exponentFor num den < greatestExponent := hexp.trans_lt (by decide)
    rcases nearest_cases s hnum with ⟨hlarge, -⟩ | ⟨k, e, hnearest, hvalue⟩
    · exact absurd hgreatest (not_lt.2 hlarge)
    rw [hnearest]
    refine .finite s ?_
    rw [hvalue]
    obtain ⟨n, hn⟩ := Int.eq_ofNat_of_zero_le (show 0 ≤ 64 - exponentFor num den by omega)
    -- the bound is a whole multiple of the power of two that the fraction is rounded at
    have hbound : ((2 ^ n : Nat) : ℚ) * 2 ^ exponentFor num den = 2 ^ 64 := by
      push_cast
      rw [← zpow_natCast, ← zpow_add₀ two_ne_zero, ← hn]
      norm_num
    rw [← hbound] at h ⊢
    exact mul_le_mul_of_nonneg_right (by exact_mod_cast roundAt_le hden h)
      (zpow_pos two_pos _).le

/-- A quotient of an integer is moderate if the integer is at most `2 ^ 64`. -/
theorem moderate_ratio {n d : Int} (hn : n.natAbs ≤ 2 ^ 64) (hd : d ≠ 0) :
    (ratio n d).Moderate := by
  have hden : 0 < d.natAbs := Int.natAbs_pos.2 hd
  have hone : (1 : ℚ) ≤ d.natAbs := by exact_mod_cast hden
  have hnum : (n.natAbs : ℚ) ≤ 2 ^ 64 := by exact_mod_cast hn
  have hzero : (d == 0) = false := by simpa using hd
  rw [ratio, hzero, if_neg Bool.false_ne_true]
  refine moderate_nearest _ hden ?_
  exact (div_le_self (Nat.cast_nonneg _) hone).trans hnum

/-- What is no less than one is rounded to no less than one. -/
theorem one_le_nearest (hden : 0 < den) (h : den ≤ num) : nearest false num den = .infinite false ∨
    ∃ k e, nearest false num den = .finite false k e ∧ (1 : ℚ) ≤ k * 2 ^ e := by
  have hnum : num ≠ 0 := by omega
  have hden' : (0 : ℚ) < den := by exact_mod_cast hden
  have hone : (1 : ℚ) ≤ num / den := (one_le_div hden').2 (by exact_mod_cast h)
  rcases nearest_cases false hnum with ⟨-, hlarge⟩ | ⟨k, e, hnearest, hvalue⟩
  · exact Or.inl hlarge
  refine Or.inr ⟨k, e, hnearest, ?_⟩
  rw [hvalue]
  have hpow : (0 : ℚ) < 2 ^ exponentFor num den := zpow_pos two_pos _
  rcases le_or_gt (exponentFor num den) 0 with hexp | hexp
  · obtain ⟨n, hn⟩ := Int.eq_ofNat_of_zero_le (show 0 ≤ -exponentFor num den by omega)
    have hunit : ((2 ^ n : Nat) : ℚ) * 2 ^ exponentFor num den = 1 := by
      push_cast
      rw [← zpow_natCast, ← zpow_add₀ two_ne_zero, ← hn, neg_add_cancel, zpow_zero]
    have hround : 2 ^ n ≤ roundAt num den (exponentFor num den) :=
      le_roundAt hden (hunit.le.trans hone)
    rw [← hunit]
    exact mul_le_mul_of_nonneg_right (by exact_mod_cast hround) hpow.le
  · -- above the least exponent the fraction has a significand of full length
    obtain ⟨e', heq, -, hfull⟩ := exists_exponentFor_bounds hnum hden.ne'
    have hleast : leastExponent = -1074 := rfl
    have he' : exponentFor num den = e' := by omega
    have hle : ((1 : Nat) : ℚ) * 2 ^ exponentFor num den ≤ num / den := by
      rw [Nat.cast_one, one_mul, he']
      exact (zpow_le_zpow_right₀ one_le_two (by omega)).trans hfull
    have hround : 1 ≤ roundAt num den (exponentFor num den) := le_roundAt hden hle
    calc (1 : ℚ) = 1 * 1 := (one_mul 1).symm
      _ ≤ roundAt num den (exponentFor num den) * 2 ^ exponentFor num den :=
        mul_le_mul (by exact_mod_cast hround) (one_le_zpow₀ one_le_two hexp.le) zero_le_one
          (Nat.cast_nonneg _)

/-- What a positive integer is rounded to is no less than one. -/
theorem one_le_ofInt {p : Nat} (hp : 0 < p) : ofInt p = .infinite false ∨
    ∃ k e, ofInt p = .finite false k e ∧ (1 : ℚ) ≤ k * 2 ^ e := by
  have hof : ofInt p = nearest false p 1 := by
    simp [ofInt, ratio, not_lt.2 (Int.natCast_nonneg p)]
  rw [hof]
  exact one_le_nearest Nat.one_pos hp

/-- A moderate number divided by a number of things is moderate. -/
theorem moderate_div {x : Binary64} (hx : x.Moderate) {p : Nat} (hp : 0 < p) :
    (x.div (ofInt p)).Moderate := by
  obtain ⟨s, h⟩ := hx
  rename_i k e
  rcases one_le_ofInt hp with hinf | ⟨l, f, hfinite, hone⟩
  · rw [hinf]
    exact moderate_zero _
  · have hl : l ≠ 0 := by
      rintro rfl
      norm_num at hone
    have hzero : (l == 0) = false := by simpa using hl
    have hpos : (0 : ℚ) < twoPow (f - e) := by exact_mod_cast twoPow_pos (f - e)
    have hquot : ((k * twoPow (e - f) : Nat) : ℚ) / (l * twoPow (f - e) : Nat) =
        k * 2 ^ e / (l * 2 ^ f) := by
      have hneg : -(e - f) = f - e := by omega
      have hl' : (l : ℚ) ≠ 0 := by exact_mod_cast hl
      rw [Nat.cast_mul, Nat.cast_mul, twoPow_eq_zpow_mul (e - f), hneg, zpow_sub₀ two_ne_zero]
      field_simp
    rw [hfinite, div, hzero, if_neg Bool.false_ne_true]
    refine moderate_nearest _ (Nat.mul_pos (Nat.pos_of_ne_zero hl) (twoPow_pos _)) ?_
    rw [hquot]
    exact (div_le_self (by positivity) hone).trans h

/-- Rounding a moderate number to decimal places leaves it moderate. -/
theorem moderate_roundTo (places : Nat) {x : Binary64} (hx : x.Moderate) :
    (x.roundTo places).Moderate := by
  obtain ⟨s, h⟩ := hx
  rename_i k e
  have hten : 0 < tenPow places := Nat.pow_pos (by decide)
  have hnum : k * twoPow e ≤ 2 ^ 64 * twoPow (-e) := by
    have hpos : (0 : ℚ) < twoPow (-e) := by exact_mod_cast twoPow_pos (-e)
    have hcast : ((k * twoPow e : Nat) : ℚ) ≤ (2 ^ 64 * twoPow (-e) : Nat) := by
      push_cast
      rw [twoPow_eq_zpow_mul e, ← mul_assoc]
      exact mul_le_mul_of_nonneg_right h hpos.le
    exact_mod_cast hcast
  have hscaled : halfEven (k * twoPow e * tenPow places) (twoPow (-e)) ≤
      2 ^ 64 * tenPow places := by
    refine halfEven_le (twoPow_pos _) ?_
    calc k * twoPow e * tenPow places ≤ 2 ^ 64 * twoPow (-e) * tenPow places :=
          Nat.mul_le_mul_right _ hnum
      _ = 2 ^ 64 * tenPow places * twoPow (-e) := Nat.mul_right_comm _ _ _
  rw [roundTo]
  refine moderate_nearest s hten ?_
  rw [div_le_iff₀ (by exact_mod_cast hten)]
  exact_mod_cast hscaled

end Cohesion.Binary64
