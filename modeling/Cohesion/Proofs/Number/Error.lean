/-
The error of a rounded quotient.

A quotient is rounded to a whole significand, so the rounded value is off by at most half of the
unit of the last place.  Where the significand has full length, that is at most one part in
`2 ^ 53` of the quotient; only quotients below `2 ^ (-1022)` have shorter significands.  And a
quotient that is at most a representable number is not rounded to more than that.

Main definitions:
* `Binary64.IsValue` — the value of a number is this fraction;
* `Binary64.Representable` — a number has a significand and an exponent within the limits;
* `Binary64.IsRounded` — a number is the one nearest to this fraction.

Main results:
* `abs_halfEven_sub_le` — a rounded quotient of natural numbers is off by at most one half;
* `Binary64.isRounded_ratio`, `Binary64.isRounded_div` — quotients are rounded fractions;
* `Binary64.IsRounded.exists_error` — **the relative error of a rounded fraction**;
* `Binary64.IsRounded.exists_le` — **a rounded fraction does not pass a representable number**;
* `Binary64.zero_lt_ratio_iff` — a share is positive exactly when it is one of something;
* `Binary64.exists_mean_error` — a share divided by a number of things.
-/
import Cohesion.Proofs.Number.Quotient
import Mathlib.Algebra.Order.Field.Power
import Mathlib.Tactic.FieldSimp
import Mathlib.Tactic.Linarith
import Mathlib.Tactic.Positivity

set_option autoImplicit false

namespace Cohesion

/-- A rounded quotient of natural numbers is off by at most one half. -/
theorem abs_halfEven_sub_le (num : Nat) {den : Nat} (hden : 0 < den) :
    |(halfEven num den : ℚ) - num / den| ≤ 1 / 2 := by
  have hpos : (0 : ℚ) < den := by exact_mod_cast hden
  have hrem : ((num % den : Nat) : ℚ) < den := by exact_mod_cast Nat.mod_lt num hden
  have hrem₀ : (0 : ℚ) ≤ (num % den : Nat) := Nat.cast_nonneg _
  have hquot : (num / den : ℚ) = (num / den : Nat) + (num % den : Nat) / den := by
    rw [eq_comm, ← mul_left_inj' hpos.ne', add_mul, div_mul_cancel₀ _ hpos.ne',
      div_mul_cancel₀ _ hpos.ne', mul_comm]
    exact_mod_cast Nat.div_add_mod num den
  rw [hquot, abs_le]
  simp only [halfEven]
  split
  · rename_i hup
    have hhalf : (den : ℚ) ≤ 2 * (num % den : Nat) := by
      rw [Bool.or_eq_true, Bool.and_eq_true, decide_eq_true_eq, beq_iff_eq] at hup
      exact_mod_cast (by omega : den ≤ 2 * (num % den))
    have hfrac : 1 / 2 ≤ ((num % den : Nat) : ℚ) / den := by
      rw [le_div_iff₀ hpos]
      linarith
    have hfrac₁ : ((num % den : Nat) : ℚ) / den < 1 := by rwa [div_lt_one hpos]
    push_cast
    constructor <;> linarith
  · rename_i hdown
    have hhalf : 2 * ((num % den : Nat) : ℚ) ≤ den := by
      rw [Bool.or_eq_true, decide_eq_true_eq, not_or] at hdown
      exact_mod_cast (by omega : 2 * (num % den) ≤ den)
    have hfrac : ((num % den : Nat) : ℚ) / den ≤ 1 / 2 := by
      rw [div_le_iff₀ hpos]
      linarith
    have hfrac₀ : 0 ≤ ((num % den : Nat) : ℚ) / den := div_nonneg hrem₀ hpos.le
    constructor <;> linarith

namespace Binary64

/-- The value of a number is this fraction. -/
def IsValue (x : Binary64) (q : ℚ) : Prop := x.value? = some ((q : WithTop ℚ) : WithBot (WithTop ℚ))

theorem IsValue.unique {x : Binary64} {p q : ℚ} (hp : x.IsValue p) (hq : x.IsValue q) : p = q := by
  have h := hp.symm.trans hq
  simpa using h

theorem lt_iff_of_isValue {x y : Binary64} {p q : ℚ} (hx : x.IsValue p) (hy : y.IsValue q) :
    x.lt y = true ↔ p < q := by
  rw [(lt_eq_of_value? hx hy).1, WithBot.coe_lt_coe, WithTop.coe_lt_coe]

/-- A number that is not negated is its significand times its power of two. -/
theorem isValue_finite (k : Nat) (e : Int) : (finite false k e).IsValue (k * 2 ^ e) := by
  have hpos : (twoPow (-e) : ℚ) ≠ 0 := by exact_mod_cast (twoPow_pos (-e)).ne'
  have hfrac : ((k * twoPow e : Nat) : ℚ) / twoPow (-e) = k * 2 ^ e := by
    rw [Nat.cast_mul, twoPow_eq_zpow_mul e]
    field_simp
  rw [IsValue, ← hfrac]
  simp [value?, fraction?]

theorem isValue_zero : (zero false).IsValue 0 := by
  simpa [zero] using isValue_finite 0 leastExponent

variable {num den : Nat}

/-- What a fraction is rounded to is too large for a finite number, or its value is a whole multiple
of the power of two that the fraction was rounded at. -/
theorem nearest_cases (s : Bool) (hnum : num ≠ 0) :
    greatestExponent ≤ exponentFor num den ∧ nearest s num den = infinite s ∨
      ∃ k e, nearest s num den = finite s k e ∧
        (k * 2 ^ e : ℚ) = roundAt num den (exponentFor num den) * 2 ^ exponentFor num den := by
  by_cases hend : roundAt num den (exponentFor num den) = significandEnd
  · by_cases hlarge : greatestExponent < exponentFor num den + 1
    · exact Or.inl ⟨by omega, by simp [nearest, hnum, hend, hlarge]⟩
    · have hdouble : (significandEnd : ℚ) = leastFull * 2 := by
        exact_mod_cast (rfl : significandEnd = leastFull * 2)
      refine Or.inr ⟨leastFull, exponentFor num den + 1, by simp [nearest, hnum, hend, hlarge], ?_⟩
      rw [hend, hdouble, zpow_add_one₀ two_ne_zero]
      ring
  · by_cases hlarge : greatestExponent < exponentFor num den
    · exact Or.inl ⟨hlarge.le, by simp [nearest, hnum, hend, hlarge]⟩
    · exact Or.inr ⟨_, _, by simp [nearest, hnum, hend, hlarge], rfl⟩

/-- The value of a rounded quotient that is not too large is its rounded significand times the
power of two it was rounded at. -/
theorem isValue_nearest (hnum : num ≠ 0) (hfits : exponentFor num den < greatestExponent) :
    (nearest false num den).IsValue
      (roundAt num den (exponentFor num den) * 2 ^ exponentFor num den) := by
  rcases nearest_cases false hnum with ⟨hlarge, -⟩ | ⟨k, e, hnearest, hvalue⟩
  · exact absurd hfits (not_lt.2 hlarge)
  · rw [hnearest, ← hvalue]
    exact isValue_finite k e

theorem exponentFor_lt_of_le (hnum : num ≠ 0) (h : num ≤ den) :
    exponentFor num den < greatestExponent :=
  (exponentFor_le hnum h).trans_lt (by decide)

/-- What is rounded at an exponent is the quotient without the power of two. -/
theorem div_twoPow_eq (num den : Nat) (e : Int) :
    ((num * twoPow (-e) : Nat) : ℚ) / (den * twoPow e : Nat) = num / den / 2 ^ e := by
  have hpos : (twoPow (-e) : ℚ) ≠ 0 := by exact_mod_cast (twoPow_pos (-e)).ne'
  have hpow : (2 : ℚ) ^ e ≠ 0 := zpow_ne_zero _ two_ne_zero
  rw [Nat.cast_mul, Nat.cast_mul, twoPow_eq_zpow_mul e]
  by_cases hden : (den : ℚ) = 0
  · simp [hden]
  · field_simp

/-- The rounded value is off by at most half of the unit of the last place. -/
theorem abs_roundAt_sub_le (hden : 0 < den) (e : Int) :
    |roundAt num den e * 2 ^ e - (num / den : ℚ)| ≤ 2 ^ e / 2 := by
  have hpow : (0 : ℚ) < 2 ^ e := zpow_pos two_pos _
  have herror := abs_halfEven_sub_le (num * twoPow (-e))
    (Nat.mul_pos hden (twoPow_pos e))
  rw [div_twoPow_eq] at herror
  have hsplit : roundAt num den e * 2 ^ e - (num / den : ℚ) =
      (roundAt num den e - num / den / 2 ^ e) * 2 ^ e := by
    rw [sub_mul, div_mul_cancel₀ _ hpow.ne']
  rw [hsplit, abs_mul, abs_of_pos hpow]
  calc |(roundAt num den e : ℚ) - num / den / 2 ^ e| * 2 ^ e ≤ 1 / 2 * 2 ^ e :=
        mul_le_mul_of_nonneg_right herror hpow.le
    _ = 2 ^ e / 2 := by ring

/-! ### Representable numbers -/

/-- A number that is finite has a significand and an exponent within the limits. -/
def Representable : Binary64 → Prop
  | finite _ k e => k < significandEnd ∧ leastExponent ≤ e
  | _ => True

/-! ### Rounded fractions -/

/-- A number is the one nearest to a fraction that is not negative. -/
def IsRounded (x : Binary64) (q : ℚ) : Prop :=
  ∃ num den : Nat, 0 < den ∧ x = nearest false num den ∧ q = num / den

/-- The quotient of two integers is their fraction, rounded. -/
theorem isRounded_ratio {n d : Int} (hn : 0 ≤ n) (hd : 0 < d) : (ratio n d).IsRounded (n / d) := by
  obtain ⟨num, rfl⟩ := Int.eq_ofNat_of_zero_le hn
  obtain ⟨den, rfl⟩ := Int.eq_ofNat_of_zero_le hd.le
  have hden : den ≠ 0 := by omega
  refine ⟨num, den, by omega, ?_, by simp⟩
  simp [ratio, hden, not_lt.2 hn, not_lt.2 hd.le]

/-- A positive number is given by its significand and its exponent. -/
theorem exists_finite_of_isValue {x : Binary64} {q : ℚ} (hx : x.IsValue q) (hq : 0 < q) :
    ∃ k e, x = finite false k e ∧ q = k * 2 ^ e := by
  cases x with
  | nan => cases hx
  | infinite s => cases s <;> cases hx
  | finite s k e =>
      cases s with
      | false => exact ⟨k, e, rfl, hx.unique (isValue_finite k e)⟩
      | true =>
          -- a negated number is not positive
          have hvalue : (finite true k e).IsValue (-(k * twoPow e : Nat) / (twoPow (-e) : Nat)) := by
            simp [IsValue, value?, fraction?]
          have hneg : (-(k * twoPow e : Nat) / (twoPow (-e) : Nat) : ℚ) ≤ 0 :=
            div_nonpos_of_nonpos_of_nonneg (neg_nonpos.2 (Nat.cast_nonneg _)) (Nat.cast_nonneg _)
          rw [hx.unique hvalue] at hq
          exact absurd hq (not_lt.2 hneg)

/-- The quotient of two positive numbers is the quotient of their values, rounded. -/
theorem isRounded_div {x y : Binary64} {p q : ℚ} (hx : x.IsValue p) (hy : y.IsValue q)
    (hp : 0 < p) (hq : 0 < q) : (x.div y).IsRounded (p / q) := by
  obtain ⟨k, e, rfl, rfl⟩ := exists_finite_of_isValue hx hp
  obtain ⟨l, f, rfl, rfl⟩ := exists_finite_of_isValue hy hq
  have hl : l ≠ 0 := by
    rintro rfl
    simp at hq
  refine ⟨k * twoPow (e - f), l * twoPow (f - e), ?_, by simp [div, hl], ?_⟩
  · exact Nat.mul_pos (Nat.pos_of_ne_zero hl) (twoPow_pos _)
  · have hback : e - f = -(f - e) := by omega
    have hpow : (2 : ℚ) ^ f ≠ 0 := zpow_ne_zero _ two_ne_zero
    rw [hback, div_twoPow_eq, zpow_sub₀ two_ne_zero]
    field_simp

/-- A positive fraction that is at most one is rounded to a significand at the exponent of its
numerator and denominator. -/
theorem IsRounded.exists_value {x : Binary64} {q : ℚ} (h : x.IsRounded q) (hle : q ≤ 1)
    (hpos : 0 < q) : ∃ num den : Nat, num ≠ 0 ∧ 0 < den ∧ q = num / den ∧
      x.IsValue (roundAt num den (exponentFor num den) * 2 ^ exponentFor num den) := by
  obtain ⟨num, den, hden, rfl, rfl⟩ := h
  have hden' : (0 : ℚ) < den := by exact_mod_cast hden
  have hnum : num ≠ 0 := by
    rintro rfl
    simp at hpos
  have hunit : num ≤ den := by
    rw [div_le_one hden'] at hle
    exact_mod_cast hle
  exact ⟨num, den, hnum, hden, rfl, isValue_nearest hnum (exponentFor_lt_of_le hnum hunit)⟩

/-- A fraction that is not too small has a significand of full length at its exponent. -/
theorem exponentFor_normal (hnum : num ≠ 0) (hden : 0 < den)
    (hnormal : (2 : ℚ) ^ (-1022 : Int) ≤ num / den) :
    (2 : ℚ) ^ (52 + exponentFor num den) ≤ num / den ∧
      (num / den : ℚ) < 2 ^ (53 + exponentFor num den) := by
  obtain ⟨e, heq, hbelow, hfull⟩ := exists_exponentFor_bounds hnum hden.ne'
  -- the fraction is not so small that its exponent would be the least one
  have hleast : leastExponent ≤ e := by
    have hexp := (zpow_lt_zpow_iff_right₀ one_lt_two).1 (hnormal.trans_lt hbelow)
    rw [leastExponent]
    omega
  rw [heq, max_eq_right hleast]
  exact ⟨hfull, hbelow⟩

/-- **The relative error of a rounded fraction** that is at most one and not too small is at most
one part in `2 ^ 53`. -/
theorem IsRounded.exists_error {x : Binary64} {q : ℚ} (h : x.IsRounded q) (hle : q ≤ 1)
    (hnormal : (2 : ℚ) ^ (-1022 : Int) ≤ q) :
    ∃ v : ℚ, x.IsValue v ∧ |v - q| ≤ q / 2 ^ 53 := by
  have hpos : 0 < q := lt_of_lt_of_le (by positivity) hnormal
  obtain ⟨num, den, hnum, hden, rfl, hvalue⟩ := h.exists_value hle hpos
  obtain ⟨hfull, -⟩ := exponentFor_normal hnum hden hnormal
  have hlast : (2 : ℚ) ^ (52 + exponentFor num den) = 2 ^ exponentFor num den / 2 * 2 ^ 53 := by
    rw [zpow_add₀ two_ne_zero]
    norm_num
    ring
  refine ⟨_, hvalue, (abs_roundAt_sub_le hden _).trans ?_⟩
  rw [le_div_iff₀ (by positivity), ← hlast]
  exact hfull

/-- The exponent of a fraction is not greater than that of a representable number it is at most. -/
theorem exponentFor_le_of_le {k : Nat} {f : Int} (hnum : num ≠ 0) (hden : 0 < den)
    (hk : k < significandEnd) (hf : leastExponent ≤ f) (hle : (num / den : ℚ) ≤ k * 2 ^ f) :
    exponentFor num den ≤ f := by
  obtain ⟨e, heq, -, hfull⟩ := exists_exponentFor_bounds hnum hden.ne'
  rw [heq]
  refine max_le hf (not_lt.1 fun hlt => ?_)
  have hend : (k : ℚ) < 2 ^ (53 : Int) := by
    exact_mod_cast (show k < 2 ^ 53 from hk)
  have hpow : (2 : ℚ) ^ (53 + f) ≤ 2 ^ (52 + e) := zpow_le_zpow_right₀ one_le_two (by omega)
  have hless : (k : ℚ) * 2 ^ f < 2 ^ (53 + f) := by
    rw [zpow_add₀ two_ne_zero]
    exact mul_lt_mul_of_pos_right hend (zpow_pos two_pos _)
  linarith

/-- A fraction that is at most a multiple of a power of two is rounded to no more at that power. -/
theorem roundAt_le {k : Nat} {e : Int} (hden : 0 < den) (hle : (num / den : ℚ) ≤ k * 2 ^ e) :
    roundAt num den e ≤ k := by
  refine halfEven_le (Nat.mul_pos hden (twoPow_pos _)) ?_
  have hpos : (0 : ℚ) < (den * twoPow e : Nat) := by
    exact_mod_cast Nat.mul_pos hden (twoPow_pos _)
  have hdiv : ((num * twoPow (-e) : Nat) : ℚ) / (den * twoPow e : Nat) ≤ k := by
    rw [div_twoPow_eq, div_le_iff₀ (zpow_pos two_pos _)]
    exact hle
  rw [div_le_iff₀ hpos] at hdiv
  exact_mod_cast hdiv

/-- **A rounded fraction does not pass a representable number**: one that is at most one and at
most such a number is not rounded to more. -/
theorem IsRounded.exists_le {x : Binary64} {q : ℚ} (h : x.IsRounded q) (hle : q ≤ 1)
    (hpos : 0 < q) {k : Nat} {f : Int} (hk : k < significandEnd) (hf : leastExponent ≤ f)
    (hbound : q ≤ k * 2 ^ f) : ∃ v : ℚ, x.IsValue v ∧ v ≤ k * 2 ^ f := by
  obtain ⟨num, den, hnum, hden, rfl, hvalue⟩ := h.exists_value hle hpos
  have hexp := exponentFor_le_of_le hnum hden hk hf hbound
  obtain ⟨n, hn⟩ := Int.eq_ofNat_of_zero_le (Int.sub_nonneg_of_le hexp)
  -- at the smaller exponent the number has a longer significand
  have hscale : (k : ℚ) * 2 ^ f = (k * 2 ^ n : Nat) * 2 ^ exponentFor num den := by
    have hsum : f = (n : Int) + exponentFor num den := by omega
    rw [hsum, zpow_add₀ two_ne_zero]
    push_cast
    rw [zpow_natCast]
    ring
  rw [hscale] at hbound ⊢
  refine ⟨_, hvalue, mul_le_mul_of_nonneg_right ?_ (zpow_pos two_pos _).le⟩
  exact_mod_cast roundAt_le hden hbound

/-- A small natural number is not rounded at all. -/
theorem isValue_ofInt {n : Nat} (hn : n < significandEnd) : (ofInt n).IsValue n := by
  by_cases hzero : n = 0
  · subst hzero
    exact_mod_cast isValue_zero
  have hlog : n.log2 < 53 := (Nat.log2_lt hzero).2 hn
  have hone : Nat.log2 1 = 0 := rfl
  have he : exponentFor n 1 ≤ 0 := by
    simp only [exponentFor, leastExponent, hone]
    split <;> omega
  have hround : roundAt n 1 (exponentFor n 1) = n * twoPow (-exponentFor n 1) := by
    rw [roundAt, twoPow_of_nonpos he]
    simp [halfEven, Nat.mod_one]
  have hvalue : (roundAt n 1 (exponentFor n 1) : ℚ) * 2 ^ exponentFor n 1 = n := by
    have hpow := twoPow_eq_zpow_mul (exponentFor n 1)
    rw [twoPow_of_nonpos he] at hpow
    rw [hround, Nat.cast_mul, mul_assoc, mul_comm (twoPow _ : ℚ), ← hpow, Nat.cast_one, mul_one]
  have hnearest : ofInt n = nearest false n 1 := by
    simp [ofInt, ratio, not_lt.2 (Int.natCast_nonneg n)]
  rw [hnearest, ← hvalue]
  exact isValue_nearest hzero (he.trans_lt (by decide))

/-! ### Shares -/

section

variable {n d : Int} (hn : 0 < n) (hle : n ≤ d) (hfits : d < 2 ^ 63)

include hn hle hfits

/-- A share of a word is not too small to be rounded to a significand of full length. -/
theorem share_bounds : (2 : ℚ) ^ (-63 : Int) ≤ n / d ∧ (n / d : ℚ) ≤ 1 := by
  have hd : (0 : ℚ) < d := by exact_mod_cast hn.trans_le hle
  have hone : (1 : ℚ) ≤ n := by exact_mod_cast hn
  have hword : (d : ℚ) ≤ 2 ^ 63 := by exact_mod_cast hfits.le
  constructor
  · rw [le_div_iff₀ hd]
    calc (2 : ℚ) ^ (-63 : Int) * d ≤ 2 ^ (-63 : Int) * 2 ^ 63 :=
          mul_le_mul_of_nonneg_left hword (by positivity)
      _ = 1 := by norm_num
      _ ≤ n := hone
  · rw [div_le_one hd]
    exact_mod_cast hle

/-- The value of a rounded share. -/
theorem exists_share_error : ∃ v : ℚ, (ratio n d).IsValue v ∧ v ≤ 1 ∧
    |v - n / d| ≤ n / d / 2 ^ 53 ∧ (2 : ℚ) ^ (-64 : Int) ≤ v := by
  obtain ⟨hsmall, hunit⟩ := share_bounds hn hle hfits
  have hrounded := isRounded_ratio hn.le (hn.trans_le hle)
  have hnormal : (2 : ℚ) ^ (-1022 : Int) ≤ 2 ^ (-63 : Int) :=
    zpow_le_zpow_right₀ one_le_two (by norm_num)
  obtain ⟨v, hv, herror⟩ := hrounded.exists_error hunit (hnormal.trans hsmall)
  obtain ⟨v', hv', hone⟩ := hrounded.exists_le hunit (lt_of_lt_of_le (by positivity) hsmall)
    (k := 1) (f := 0) (by decide) (by decide) (by simpa using hunit)
  obtain rfl := hv.unique hv'
  refine ⟨v, hv, by simpa using hone, herror, ?_⟩
  -- half of the share is left after rounding
  have hhalf : (2 : ℚ) ^ (-64 : Int) = 2 ^ (-63 : Int) / 2 := by norm_num
  have hlow := (abs_le.1 herror).1
  rw [hhalf]
  linarith

end

/-- A share is positive exactly when it is one of something: it is not rounded to zero. -/
theorem zero_lt_ratio_iff {n d : Int} (hn : 0 ≤ n) (hle : n ≤ d) (hd : 0 < d)
    (hfits : d < 2 ^ 63) : (zero false).lt (ratio n d) = true ↔ 0 < n := by
  rcases hn.eq_or_lt with rfl | hpos
  · have hzero : ratio 0 d = zero false := by
      simp [ratio, nearest, hd.ne', not_lt.2 hd.le]
    rw [hzero, lt_iff_of_isValue isValue_zero isValue_zero]
    exact iff_of_false (lt_irrefl _) (lt_irrefl _)
  · obtain ⟨v, hv, -, -, hlow⟩ := exists_share_error hpos hle hfits
    rw [lt_iff_of_isValue isValue_zero hv]
    exact iff_of_true (lt_of_lt_of_le (by positivity) hlow) hpos

theorem isValue_zero_div {y : Binary64} {q : ℚ} (hy : y.IsValue q) (hq : 0 < q) :
    ((zero false).div y).IsValue 0 := by
  obtain ⟨l, f, rfl, rfl⟩ := exists_finite_of_isValue hy hq
  have hl : l ≠ 0 := by
    rintro rfl
    simp at hq
  have hzero : (zero false).div (finite false l f) = zero false := by
    simp [zero, div, nearest, hl]
  rw [hzero]
  exact isValue_zero

/-- A share divided by a number of things is rounded twice.  But it does not pass a representable
number that is at least the inverse of the number of things. -/
theorem exists_mean_error {n d : Int} (hn : 0 < n) (hle : n ≤ d) (hfits : d < 2 ^ 63) {p : Nat}
    (hp : 0 < p) (hsmall : p < significandEnd) :
    ∃ w : ℚ, ((ratio n d).div (ofInt p)).IsValue w ∧ w ≤ (1 + 1 / 2 ^ 53) ^ 2 * (n / d / p) ∧
      ∀ (k : Nat) (f : Int), k < significandEnd → leastExponent ≤ f → (1 / p : ℚ) ≤ k * 2 ^ f →
        w ≤ k * 2 ^ f := by
  have hp' : (0 : ℚ) < p := by exact_mod_cast hp
  have hone : (1 : ℚ) ≤ p := by exact_mod_cast hp
  obtain ⟨v, hv, hunit, herror, hlow⟩ := exists_share_error hn hle hfits
  have hpos : 0 < v := lt_of_lt_of_le (by positivity) hlow
  have hrounded := isRounded_div hv (isValue_ofInt hsmall) hpos hp'
  have hmean : v / p ≤ 1 := by
    rw [div_le_one hp']
    exact hunit.trans hone
  have hnormal : (2 : ℚ) ^ (-1022 : Int) ≤ v / p := by
    have hcount : (p : ℚ) ≤ 2 ^ (53 : Int) := by
      exact_mod_cast (show p ≤ 2 ^ 53 from hsmall.le)
    rw [le_div_iff₀ hp']
    calc (2 : ℚ) ^ (-1022 : Int) * p ≤ 2 ^ (-1022 : Int) * 2 ^ (53 : Int) :=
          mul_le_mul_of_nonneg_left hcount (by positivity)
      _ ≤ 2 ^ (-64 : Int) := by
          rw [← zpow_add₀ two_ne_zero]
          exact zpow_le_zpow_right₀ one_le_two (by norm_num)
      _ ≤ v := hlow
  obtain ⟨w, hw, herror'⟩ := hrounded.exists_error hmean hnormal
  refine ⟨w, hw, ?_, ?_⟩
  · have hup : v ≤ (1 + 1 / 2 ^ 53) * (n / d) := by
      have h := (abs_le.1 herror).2
      linarith
    have hup' : w ≤ (1 + 1 / 2 ^ 53) * (v / p) := by
      have h := (abs_le.1 herror').2
      linarith
    calc w ≤ (1 + 1 / 2 ^ 53) * (v / p) := hup'
      _ ≤ (1 + 1 / 2 ^ 53) * ((1 + 1 / 2 ^ 53) * (n / d) / p) := by gcongr
      _ = (1 + 1 / 2 ^ 53) ^ 2 * (n / d / p) := by ring
  · intro k f hk hf hbound
    have hinverse : v / p ≤ k * 2 ^ f := by
      refine le_trans ?_ hbound
      gcongr
    obtain ⟨w', hw', hle'⟩ := hrounded.exists_le hmean (div_pos hpos hp') hk hf hinverse
    exact (hw.unique hw').trans_le hle'

end Binary64

end Cohesion
