/-
The fractions that are rounded to a number.

The fractions that are rounded to a positive number reach half a unit of its last place to either
side.  Only below a power of two the next number is half as far away, so that they reach a quarter
of a unit there.  The ends are rounded to the number exactly if its significand is even.

Main definitions:
* `Binary64.Reaches` — a fraction lies between the ends for a number.

Main results:
* `halfEven_eq` — a quotient in reach of a natural number is rounded to it;
* `Binary64.nearest_congr` — equal fractions are rounded alike;
* `Binary64.nearest_eq_of_reaches` — **a fraction in reach of a number is rounded to it**.
-/
import Cohesion.Proofs.Number.Canonical

set_option autoImplicit false

namespace Cohesion

/-- A quotient that is at most half away from a natural number is rounded to it, at exactly half if
the number is even. -/
theorem halfEven_eq {num den k : Nat} (hden : 0 < den) (hlow : 2 * k * den ≤ 2 * num + den)
    (hhigh : 2 * num ≤ 2 * k * den + den)
    (hodd : k % 2 = 1 → 2 * k * den < 2 * num + den ∧ 2 * num < 2 * k * den + den) :
    halfEven num den = k := by
  have hrem : num % den < den := Nat.mod_lt num hden
  have hnum : den * (num / den) + num % den = num := Nat.div_add_mod num den
  have hle : num / den ≤ k := by
    by_contra hlt
    have hmul : den * (k + 1) ≤ den * (num / den) := Nat.mul_le_mul_left _ (by omega)
    have hexpand : den * (k + 1) = k * den + den := by ring
    have hdouble : 2 * k * den = 2 * (k * den) := by ring
    omega
  have hge : k ≤ num / den + 1 := by
    by_contra hlt
    have hmul : den * (num / den + 2) ≤ den * k := Nat.mul_le_mul_left _ (by omega)
    have hexpand : den * (num / den + 2) = den * (num / den) + 2 * den := by ring
    have hdouble : 2 * k * den = 2 * (den * k) := by ring
    omega
  rcases Nat.lt_or_ge (num / den) k with hlt | hge'
  · -- the quotient lies below the number
    obtain rfl : k = num / den + 1 := by omega
    have hexpand : 2 * (num / den + 1) * den = 2 * (den * (num / den)) + 2 * den := by ring
    have hup : (den < 2 * (num % den) || (2 * (num % den) == den && num / den % 2 == 1)) = true := by
      rw [Bool.or_eq_true, Bool.and_eq_true, decide_eq_true_eq, beq_iff_eq, beq_iff_eq]
      omega
    simp only [halfEven, hup, if_true]
  · obtain rfl : k = num / den := by omega
    have hexpand : 2 * (num / den) * den = 2 * (den * (num / den)) := by ring
    have hdown : (den < 2 * (num % den) || (2 * (num % den) == den && num / den % 2 == 1)) =
        false := by
      rw [Bool.or_eq_false_iff, Bool.and_eq_false_iff, decide_eq_false_iff_not, beq_eq_false_iff_ne,
        beq_eq_false_iff_ne]
      omega
    simp only [halfEven, hdown, Bool.false_eq_true, if_false]

namespace Binary64

variable {num den k : Nat} {e : Int}

/-- Equal fractions are rounded alike. -/
theorem nearest_congr {num' den' : Nat} (s : Bool) (hden : den ≠ 0) (hden' : den' ≠ 0)
    (h : (num / den : ℚ) = num' / den') : nearest s num den = nearest s num' den' := by
  have hcast : (den : ℚ) ≠ 0 := by exact_mod_cast hden
  have hcast' : (den' : ℚ) ≠ 0 := by exact_mod_cast hden'
  have hcross : den' * num = den * num' := by
    rw [div_eq_div_iff hcast hcast'] at h
    rw [Nat.mul_comm, Nat.mul_comm den]
    exact_mod_cast h
  rw [← nearest_mul_left (Nat.pos_of_ne_zero hden') s num hden, hcross, Nat.mul_comm den',
    nearest_mul_left (Nat.pos_of_ne_zero hden) s num' hden']

/-- How far below a number the fractions reach that are rounded to it, in units of the last
place. -/
def reachBelow (k : Nat) (e : Int) : ℚ := if k = leastFull ∧ leastExponent < e then 1 / 4 else 1 / 2

theorem reachBelow_le (k : Nat) (e : Int) : reachBelow k e ≤ 1 / 2 := by
  rw [reachBelow]
  split <;> norm_num

theorem sub_half_mul_le (k : Nat) (e : Int) :
    (k - 1 / 2 : ℚ) * 2 ^ e ≤ (k - reachBelow k e) * 2 ^ e :=
  mul_le_mul_of_nonneg_right (by linarith [reachBelow_le k e]) (zpow_pos two_pos _).le

theorem le_reachBelow (k : Nat) (e : Int) : 1 / 4 ≤ reachBelow k e := by
  rw [reachBelow]
  split <;> norm_num

/-- A fraction lies between the ends for a number, and only for an even significand at one of
them. -/
structure Reaches (k : Nat) (e : Int) (q : ℚ) : Prop where
  /-- It is not below the lower end. -/
  low : (k - reachBelow k e) * 2 ^ e ≤ q
  /-- It is not above the upper end. -/
  high : q ≤ (k + 1 / 2) * 2 ^ e
  /-- For an odd significand the ends are excluded. -/
  odd : k % 2 = 1 → (k - reachBelow k e) * 2 ^ e < q ∧ q < (k + 1 / 2) * 2 ^ e

section Reaches

variable {q : ℚ} (h : Reaches k e q)

include h

theorem Reaches.half_le : (k - 1 / 2 : ℚ) * 2 ^ e ≤ q := (sub_half_mul_le k e).trans h.low

/-- The fractions in reach of a positive number are positive. -/
theorem Reaches.pos (hpos : 0 < k) : 0 < q := by
  have hone : (1 : ℚ) ≤ k := by exact_mod_cast hpos
  exact (mul_pos (by linarith) (zpow_pos two_pos _)).trans_le h.half_le

/-- The fractions in reach of a number have no more bits than the longest significands. -/
theorem Reaches.lt_zpow (hk : CanonicalParts k e) : q < 2 ^ (53 + e) := by
  have hlt : (k : ℚ) + 1 ≤ 2 ^ 53 := by
    have hnat : k + 1 ≤ 2 ^ 53 := hk.significand_lt
    exact_mod_cast hnat
  rw [zpow_add₀ two_ne_zero]
  refine h.high.trans_lt (mul_lt_mul_of_pos_right ?_ (zpow_pos two_pos _))
  calc (k + 1 / 2 : ℚ) < k + 1 := by linarith
    _ ≤ 2 ^ (53 : Int) := hlt

/-- A fraction in reach of a number with a smaller exponent lies just below a power of two. -/
theorem Reaches.eq_leastFull (hk : CanonicalParts k e) (hleast : leastExponent < e)
    (hsmall : q < 2 ^ (52 + e)) : k = leastFull := by
  by_contra hne
  have hlong : leastFull + 1 ≤ k := (hk.full hleast).lt_of_ne (Ne.symm hne)
  have hlong' : (2 : ℚ) ^ (52 : Int) + 1 ≤ k := by exact_mod_cast hlong
  rw [zpow_add₀ two_ne_zero] at hsmall
  have hless := lt_of_mul_lt_mul_right (h.half_le.trans_lt hsmall) (zpow_pos two_pos _).le
  linarith

end Reaches

/-- A fraction is rounded at an exponent to a natural number that is at most half away. -/
theorem roundAt_eq (hden : 0 < den) (hlow : (k - 1 / 2 : ℚ) * 2 ^ e ≤ num / den)
    (hhigh : (num / den : ℚ) ≤ (k + 1 / 2) * 2 ^ e)
    (hodd : k % 2 = 1 → (k - 1 / 2 : ℚ) * 2 ^ e < num / den ∧
      (num / den : ℚ) < (k + 1 / 2) * 2 ^ e) : roundAt num den e = k := by
  have hpow : (0 : ℚ) < 2 ^ e := zpow_pos two_pos _
  have hpos : 0 < den * twoPow e := Nat.mul_pos hden (twoPow_pos _)
  have hpos' : (0 : ℚ) < (den * twoPow e : Nat) := by exact_mod_cast hpos
  have hdiv := div_twoPow_eq num den e
  rw [← le_div_iff₀ hpow, ← hdiv, le_div_iff₀ hpos'] at hlow
  rw [← div_le_iff₀ hpow, ← hdiv, div_le_iff₀ hpos'] at hhigh
  refine halfEven_eq hpos ?_ ?_ fun h => ?_
  · have : ((2 * k * (den * twoPow e) : Nat) : ℚ) ≤
        (2 * (num * twoPow (-e)) + den * twoPow e : Nat) := by
      push_cast at hlow ⊢
      linarith
    exact_mod_cast this
  · have : ((2 * (num * twoPow (-e)) : Nat) : ℚ) ≤
        (2 * k * (den * twoPow e) + den * twoPow e : Nat) := by
      push_cast at hhigh ⊢
      linarith
    exact_mod_cast this
  · obtain ⟨hlow', hhigh'⟩ := hodd h
    rw [← lt_div_iff₀ hpow, ← hdiv, lt_div_iff₀ hpos'] at hlow'
    rw [← div_lt_iff₀ hpow, ← hdiv, div_lt_iff₀ hpos'] at hhigh'
    have hleft : ((2 * k * (den * twoPow e) : Nat) : ℚ) <
        (2 * (num * twoPow (-e)) + den * twoPow e : Nat) := by
      push_cast at hlow' ⊢
      linarith
    have hright : ((2 * (num * twoPow (-e)) : Nat) : ℚ) <
        (2 * k * (den * twoPow e) + den * twoPow e : Nat) := by
      push_cast at hhigh' ⊢
      linarith
    exact ⟨by exact_mod_cast hleft, by exact_mod_cast hright⟩

/-- The exponent of a fraction, told by a power of two on either side of it. -/
theorem exponentFor_eq (hnum : num ≠ 0) (hden : 0 < den) (hleast : leastExponent ≤ e)
    (hhigh : (num / den : ℚ) < 2 ^ (53 + e))
    (hlow : leastExponent < e → (2 : ℚ) ^ (52 + e) ≤ num / den) : exponentFor num den = e := by
  obtain ⟨f, heq, hbelow, hfull⟩ := exists_exponentFor_bounds hnum hden.ne'
  have hfe := (zpow_lt_zpow_iff_right₀ one_lt_two).1 (hfull.trans_lt hhigh)
  rw [heq]
  rcases hleast.eq_or_lt with rfl | hlt
  · exact max_eq_left (by omega)
  · have hef := (zpow_lt_zpow_iff_right₀ one_lt_two).1 ((hlow hlt).trans_lt hbelow)
    rw [max_eq_right (by omega)]
    omega

/-- A rounded fraction whose significand does not get too long. -/
theorem nearest_of_roundAt (s : Bool) (hnum : num ≠ 0) (hexp : exponentFor num den = e)
    (hround : roundAt num den e = k) (hk : k < significandEnd) (he : e ≤ greatestExponent) :
    nearest s num den = finite s k e := by
  simp [nearest, hnum, hexp, hround, hk.ne, not_lt.2 he]

/-- A rounded fraction whose significand gets too long is the next power of two. -/
theorem nearest_of_carry (s : Bool) (hnum : num ≠ 0) (hexp : exponentFor num den = e - 1)
    (hround : roundAt num den (e - 1) = significandEnd) (he : e ≤ greatestExponent) :
    nearest s num den = finite s leastFull e := by
  simp [nearest, hnum, hexp, hround, not_lt.2 he]

/-- Just below a power of two a fraction is rounded with one more bit, up to the power. -/
theorem nearest_eq_leastFull (hden : 0 < den) (hleast : leastExponent < e)
    (he : e ≤ greatestExponent) (h : Reaches leastFull e (num / den)) (hnum : num ≠ 0)
    (hsmall : (num / den : ℚ) < 2 ^ (52 + e)) (s : Bool) :
    nearest s num den = finite s leastFull e := by
  have hquarter : reachBelow leastFull e = 1 / 4 := if_pos ⟨rfl, hleast⟩
  have hcast : ((leastFull : Nat) : ℚ) = 2 ^ (52 : Int) := by
    exact_mod_cast (rfl : leastFull = 2 ^ 52)
  have hend : ((significandEnd : Nat) : ℚ) = 2 * 2 ^ (52 : Int) := by
    exact_mod_cast (rfl : significandEnd = 2 * 2 ^ 52)
  have hhalf : (2 : ℚ) ^ e = 2 ^ (e - 1) * 2 := by
    rw [zpow_sub_one₀ two_ne_zero]
    ring
  have hpow : (0 : ℚ) < 2 ^ (e - 1) := zpow_pos two_pos _
  have hlow := h.low
  rw [hquarter, hcast, hhalf] at hlow
  rw [zpow_add₀ two_ne_zero, hhalf] at hsmall
  refine nearest_of_carry s hnum (exponentFor_eq hnum hden (by omega) ?_ fun _ => ?_)
    (roundAt_eq hden ?_ ?_ fun hodd => absurd hodd (by decide)) he
  · rw [show (53 : Int) + (e - 1) = 52 + 1 + (e - 1) by omega, zpow_add₀ two_ne_zero,
      zpow_add_one₀ two_ne_zero]
    linarith
  · rw [zpow_add₀ two_ne_zero]
    refine le_trans ?_ hlow
    nlinarith [(by norm_num : (1 : ℚ) ≤ 2 ^ (52 : Int))]
  · rw [hend]
    linarith
  · rw [hend]
    linarith

/-- **A fraction in reach of a number is rounded to it.** -/
theorem nearest_eq_of_reaches (hk : CanonicalParts k e) (hpos : 0 < k) (hden : 0 < den)
    (h : Reaches k e (num / den)) (s : Bool) : nearest s num den = finite s k e := by
  have hnum : num ≠ 0 := by
    rintro rfl
    simpa using h.pos hpos
  by_cases hcarry : leastExponent < e ∧ (num / den : ℚ) < 2 ^ (52 + e)
  · obtain ⟨hleast, hsmall⟩ := hcarry
    obtain rfl := h.eq_leastFull hk hleast hsmall
    exact nearest_eq_leastFull hden hleast hk.le_greatest h hnum hsmall s
  · have hfull : leastExponent < e → (2 : ℚ) ^ (52 + e) ≤ num / den :=
      fun hleast => not_lt.1 fun hsmall => hcarry ⟨hleast, hsmall⟩
    refine nearest_of_roundAt s hnum (exponentFor_eq hnum hden hk.least_le (h.lt_zpow hk) hfull)
      (roundAt_eq hden h.half_le h.high fun hodd => ?_) hk.significand_lt hk.le_greatest
    exact ⟨(sub_half_mul_le k e).trans_lt (h.odd hodd).1, (h.odd hodd).2⟩

end Binary64

end Cohesion
