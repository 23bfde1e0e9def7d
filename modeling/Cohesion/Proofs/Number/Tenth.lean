/-
A tenth of a number of things.

The floating-point number that is nearest to a tenth is greater than a tenth by four parts in
`10 * 2 ^ 56`.  A product with it is rounded once more; but a whole tenth is a representable
number, and the product is nearer to it than to the next one.  So up to a large bound the tenth
of a number of things, rounded up, is what it would be without any rounding.

Main results:
* `Binary64.exponentFor_bounds` — the significand of a quotient of normal size has full length;
* `Binary64.isRounded_mul` — a product is a rounded fraction;
* `Binary64.ceil?_eq_some` — rounding up a number is rounding up its value;
* `Binary64.ceil?_mul_tenth` — **a tenth, rounded up, is not off by one**.
-/
import Cohesion.Proofs.Number.Error
import Mathlib.Data.Rat.Floor

set_option autoImplicit false

namespace Cohesion

namespace Binary64

/-- The significand of a quotient of normal size has full length. -/
theorem exponentFor_bounds {num den : Nat} (hnum : num ≠ 0) (hden : 0 < den)
    (hlow : (2 : ℚ) ^ (-1022 : Int) ≤ num / den) (hhigh : (num / den : ℚ) < 2 ^ (1000 : Int)) :
    exponentFor num den < greatestExponent ∧
      (2 : ℚ) ^ (52 + exponentFor num den) ≤ num / den ∧
      (num / den : ℚ) < 2 ^ (53 + exponentFor num den) := by
  obtain ⟨hfull, hbelow⟩ := exponentFor_normal hnum hden hlow
  have hexp := (zpow_lt_zpow_iff_right₀ one_lt_two).1 (hfull.trans_lt hhigh)
  refine ⟨?_, hfull, hbelow⟩
  rw [greatestExponent]
  omega

/-- The product of two positive numbers is the product of their values, rounded. -/
theorem isRounded_mul {x y : Binary64} {p q : ℚ} (hx : x.IsValue p) (hy : y.IsValue q)
    (hp : 0 < p) (hq : 0 < q) : (x.mul y).IsRounded (p * q) := by
  obtain ⟨k, e, rfl, rfl⟩ := exists_finite_of_isValue hx hp
  obtain ⟨l, f, rfl, rfl⟩ := exists_finite_of_isValue hy hq
  refine ⟨k * l * twoPow (e + f), twoPow (-(e + f)), twoPow_pos _, by simp [mul], ?_⟩
  have hpos : (twoPow (-(e + f)) : ℚ) ≠ 0 := by exact_mod_cast (twoPow_pos _).ne'
  rw [Nat.cast_mul, twoPow_eq_zpow_mul (e + f), Nat.cast_mul, zpow_add₀ two_ne_zero]
  field_simp

/-- A number rounded up is its value rounded up. -/
theorem ceil?_eq_some {x : Binary64} {q : ℚ} (h : x.IsValue q) : x.ceil? = some ⌈q⌉ := by
  cases x with
  | nan => cases h
  | infinite s => cases s <;> cases h
  | finite s k e =>
      obtain ⟨n, d, -, hfrac⟩ := exists_fraction s k e
      have hq : (n / d : ℚ) = q := by
        have hvalue : (finite s k e).IsValue (n / d) := by rw [IsValue, value?, hfrac]; rfl
        exact hvalue.unique h
      have hfloor : ⌊((-n : Int) / d : ℚ)⌋ = -n / d := Rat.floor_intCast_div_natCast (-n) d
      have hneg : (((-n : Int) : ℚ) / d) = -(n / d) := by
        rw [Int.cast_neg, neg_div]
      have hceil : -(-n / (d : Int)) = ⌈(n / d : ℚ)⌉ := by
        rw [← hfloor, hneg, Int.floor_neg, neg_neg]
      rw [ceil?, hfrac, Option.map_some, ← hq, ← hceil]

/-- The number that is nearest to a tenth. -/
theorem isValue_tenth : (ofDecimal false 1 (-1)).IsValue ((2 ^ 56 + 4) / (10 * 2 ^ 56)) := by
  have hnearest : ofDecimal false 1 (-1) = finite false 7205759403792794 (-56) := by
    decide +kernel
  have hvalue := isValue_finite 7205759403792794 (-56)
  rw [hnearest]
  convert hvalue using 1
  norm_num

/-- A whole number of at most the unit of the last place above a fraction is not passed by what the
fraction is rounded to. -/
theorem mul_zpow_le_of_lt {k a : Nat} {e : Int} (he : e ≤ 0) (h : (k : ℚ) * 2 ^ e < a + 2 ^ e) :
    (k : ℚ) * 2 ^ e ≤ a := by
  obtain ⟨n, hn⟩ := Int.eq_ofNat_of_zero_le (Int.neg_nonneg_of_nonpos he)
  have hpow : (0 : ℚ) < 2 ^ e := zpow_pos two_pos _
  -- the whole number is a multiple of the unit of the last place
  have hmultiple : (a : ℚ) = (a * 2 ^ n : Nat) * 2 ^ e := by
    have hcancel : (2 : ℚ) ^ n * 2 ^ e = 1 := by
      rw [← zpow_natCast, ← zpow_add₀ two_ne_zero, ← hn, neg_add_cancel, zpow_zero]
    push_cast
    rw [mul_assoc, hcancel, mul_one]
  rw [hmultiple] at h ⊢
  have hlt : (k : ℚ) < (a * 2 ^ n : Nat) + 1 := by
    refine lt_of_mul_lt_mul_right ?_ hpow.le
    rwa [add_mul, one_mul]
  have hle : k ≤ a * 2 ^ n := Nat.lt_succ_iff.1 (by exact_mod_cast hlt)
  exact mul_le_mul_of_nonneg_right (by exact_mod_cast hle) hpow.le

/-- What is nearest to a tenth and one part in `2 ^ 54` of it is rounded up as a tenth is. -/
theorem ceil_rounded_tenth {n k : Nat} {e : Int} (hpos : 0 < n) (hn : n < 2 ^ 50)
    (hlow : (2 : ℚ) ^ 52 * 2 ^ e ≤ n / 10 + n / 10 / 2 ^ 54)
    (hhigh : (n / 10 + n / 10 / 2 ^ 54 : ℚ) < 2 ^ 53 * 2 ^ e)
    (herror : |(k : ℚ) * 2 ^ e - (n / 10 + n / 10 / 2 ^ 54)| ≤ 2 ^ e / 2) :
    ⌈(k : ℚ) * 2 ^ e⌉ = ⌈(n / 10 : ℚ)⌉ := by
  have hone : (1 : ℚ) ≤ n := by exact_mod_cast hpos
  have hn' : (n : ℚ) < 1125899906842624 := by exact_mod_cast hn
  norm_num at hlow hhigh
  have hneg : e ≤ 0 := by
    by_contra hge
    have hunit : (1 : ℚ) ≤ 2 ^ e := one_le_zpow₀ one_le_two (by omega)
    linarith
  obtain ⟨hbelow, habove⟩ := abs_le.1 herror
  obtain ⟨a, r, hr, hsplit⟩ : ∃ a r : Nat, r < 10 ∧ n = 10 * a + r :=
    ⟨n / 10, n % 10, Nat.mod_lt _ (by decide), (Nat.div_add_mod n 10).symm⟩
  have hsplit' : (n : ℚ) = 10 * a + r := by exact_mod_cast hsplit
  rcases Nat.eq_zero_or_pos r with rfl | hrem
  · -- a whole tenth is less than half of the unit of the last place away
    have hwhole : (n / 10 : ℚ) = a := by
      rw [hsplit', Nat.cast_zero, add_zero]
      ring
    rw [hwhole] at hlow hhigh hbelow habove ⊢
    rw [Int.ceil_natCast, Int.ceil_eq_iff, Int.cast_natCast]
    exact ⟨by linarith, mul_zpow_le_of_lt hneg (by linarith)⟩
  · -- any other tenth is at least one part in ten away from the next whole numbers
    have hrem₁ : (1 : ℚ) ≤ r := by exact_mod_cast hrem
    have hrem₉ : (r : ℚ) ≤ 9 := by exact_mod_cast Nat.le_of_lt_succ hr
    have hceil : ⌈(n / 10 : ℚ)⌉ = (a : Int) + 1 := by
      rw [Int.ceil_eq_iff, Int.cast_add, Int.cast_natCast, Int.cast_one]
      constructor <;> linarith
    rw [hceil, Int.ceil_eq_iff, Int.cast_add, Int.cast_natCast, Int.cast_one]
    constructor <;> linarith

/-- **A tenth of a number of things, rounded up, is not off by one.** -/
theorem ceil?_mul_tenth {n : Nat} (hn : n < 2 ^ 50) :
    ((ofInt n).mul (ofDecimal false 1 (-1))).ceil? = some ⌈(n / 10 : ℚ)⌉ := by
  rcases Nat.eq_zero_or_pos n with rfl | hpos
  · have hzero : (ofInt ((0 : Nat) : Int)).mul (ofDecimal false 1 (-1)) = zero false := by
      decide +kernel
    rw [hzero, ceil?_eq_some isValue_zero]
    simp
  have hn' : (n : ℚ) < 1125899906842624 := by exact_mod_cast hn
  have hone : (1 : ℚ) ≤ n := by exact_mod_cast hpos
  have hsmall : n < significandEnd := hn.trans_le (Nat.pow_le_pow_right (by decide) (by decide))
  obtain ⟨num, den, hden, hproduct, hquot⟩ := isRounded_mul (isValue_ofInt hsmall) isValue_tenth
    (by linarith) (by norm_num)
  have hexact : (num / den : ℚ) = n / 10 + n / 10 / 2 ^ 54 := by
    rw [← hquot]
    ring
  have hbounds : (2 : ℚ) ^ (-4 : Int) ≤ num / den ∧ (num / den : ℚ) < 2 ^ (50 : Int) := by
    rw [hexact]
    norm_num
    constructor <;> linarith
  have hnum : num ≠ 0 := by
    rintro rfl
    rw [Nat.cast_zero, zero_div] at hexact
    linarith
  obtain ⟨hfits, hlow, hhigh⟩ := exponentFor_bounds hnum hden
    ((zpow_le_zpow_right₀ one_le_two (by decide)).trans hbounds.1)
    (hbounds.2.trans_le (zpow_le_zpow_right₀ one_le_two (by decide)))
  have herror : |roundAt num den (exponentFor num den) * 2 ^ exponentFor num den - (num / den : ℚ)| ≤
      2 ^ exponentFor num den / 2 := abs_roundAt_sub_le hden _
  rw [zpow_add₀ two_ne_zero, hexact] at hlow hhigh
  rw [hexact] at herror
  rw [hproduct, ceil?_eq_some (isValue_nearest hnum hfits),
    ceil_rounded_tenth hpos hn hlow hhigh herror]

end Binary64

end Cohesion
