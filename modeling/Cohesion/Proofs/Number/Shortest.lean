/-
The shortest decimal of a number is rounded to the number.

The search starts at the power of ten of the number and ends seventeen digits later at the latest:
there the points of the grid are closer together than the ends of what is rounded to the number, so
that one of the two points beside the number lies between the ends.

Main results:
* `Interval.reaches_of_contains` — a point inside the interval is in reach of the number;
* `ten_pow_le_two_pow` — the estimate of the power of ten is not too large;
* `Interval.isSome_neighbour?` — a fine grid has a point inside;
* `reaches_shortestDecimal` — **the shortest decimal is in reach of the number**.
-/
import Cohesion.Number.Shortest
import Cohesion.Proofs.Number.Interval

set_option autoImplicit false

namespace Cohesion

theorem tenPow_pos (n : Int) : 0 < tenPow n := Nat.pow_pos (by decide)

/-- A power of ten of either sign, as the fraction of the two powers that make it up. -/
theorem tenPow_eq_zpow_mul (e : Int) : (tenPow e : ℚ) = 10 ^ e * tenPow (-e) := by
  rcases Int.le_total 0 e with he | he
  · obtain ⟨n, rfl⟩ := Int.eq_ofNat_of_zero_le he
    have hone : tenPow (-(n : Int)) = 1 := by
      rw [tenPow, Int.toNat_of_nonpos (by omega)]
    rw [hone]
    simp [tenPow]
  · obtain ⟨n, hn⟩ := Int.eq_ofNat_of_zero_le (Int.neg_nonneg_of_nonpos he)
    obtain rfl : e = -(n : Int) := by omega
    have hone : tenPow (-(n : Int)) = 1 := by
      rw [tenPow, Int.toNat_of_nonpos he]
    rw [hone]
    simp [tenPow]

open Binary64

namespace Interval

variable {k : Nat} {e : Int}

/-! ### The ends -/

theorem unit_pos (k : Nat) (e : Int) : (0 : ℚ) < (around k e).unit := by
  exact_mod_cast twoPow_pos (2 - e)

/-- A quarter of the unit of the last place. -/
theorem scale_eq (e : Int) : (twoPow (e - 2) : ℚ) = 2 ^ e / 4 * twoPow (2 - e) := by
  rw [twoPow_eq_zpow_mul (e - 2), zpow_sub₀ two_ne_zero, neg_sub]
  norm_num

theorem mid_eq (k : Nat) (e : Int) : ((around k e).mid : ℚ) = k * 2 ^ e * (around k e).unit := by
  change ((4 * k * twoPow (e - 2) : Nat) : ℚ) = k * 2 ^ e * twoPow (2 - e)
  push_cast
  rw [scale_eq]
  ring

theorem high_eq (k : Nat) (e : Int) :
    ((around k e).high : ℚ) = (k + 1 / 2) * 2 ^ e * (around k e).unit := by
  change (((4 * k + 2) * twoPow (e - 2) : Nat) : ℚ) = (k + 1 / 2) * 2 ^ e * twoPow (2 - e)
  push_cast
  rw [scale_eq]
  ring

theorem low_eq (hk : 0 < k) (e : Int) :
    ((around k e).low : ℚ) = (k - reachBelow k e) * 2 ^ e * (around k e).unit := by
  have hlow : (around k e).low =
      (4 * k - if k = leastFull ∧ leastExponent < e then 1 else 2) * twoPow (e - 2) := by
    simp [around]
  change ((around k e).low : ℚ) = (k - reachBelow k e) * 2 ^ e * twoPow (2 - e)
  rw [hlow, reachBelow]
  split
  · rw [Nat.cast_mul, Nat.cast_sub (by omega), scale_eq]
    push_cast
    ring
  · rw [Nat.cast_mul, Nat.cast_sub (by omega), scale_eq]
    push_cast
    ring

/-- A point on a grid, compared with a number over the denominator. -/
theorem le_point_iff (i : Interval) (hunit : (0 : ℚ) < i.unit) {n : Nat} {q : ℚ}
    (hn : (n : ℚ) = q * i.unit) (c : Nat) (g : Int) :
    (n * tenPow (-g) ≤ c * tenPow g * i.unit ↔ q ≤ c * 10 ^ g) ∧
      (c * tenPow g * i.unit ≤ n * tenPow (-g) ↔ c * 10 ^ g ≤ q) := by
  have hfine : (0 : ℚ) < tenPow (-g) := by exact_mod_cast tenPow_pos (-g)
  have hpoint : ((c * tenPow g * i.unit : Nat) : ℚ) = c * 10 ^ g * (i.unit * tenPow (-g)) := by
    push_cast
    rw [tenPow_eq_zpow_mul]
    ring
  have hnumber : ((n * tenPow (-g) : Nat) : ℚ) = q * (i.unit * tenPow (-g)) := by
    push_cast
    rw [hn]
    ring
  have hscale := mul_pos hunit hfine
  constructor
  · rw [← mul_le_mul_iff_left₀ hscale, ← hpoint, ← hnumber]
    exact_mod_cast Iff.rfl
  · rw [← mul_le_mul_iff_left₀ hscale, ← hpoint, ← hnumber]
    exact_mod_cast Iff.rfl

/-- A point inside is in reach of the number. -/
theorem reaches_of_contains (hk : 0 < k) {c : Nat} {g : Int}
    (h : (around k e).contains c g = true) : Reaches k e (c * 10 ^ g) := by
  obtain ⟨hlow, hlow'⟩ := le_point_iff (around k e) (unit_pos k e) (low_eq hk e) c g
  obtain ⟨hhigh, hhigh'⟩ := le_point_iff (around k e) (unit_pos k e) (high_eq k e) c g
  have hclosed : (around k e).closed = (k % 2 == 0) := rfl
  unfold contains at h
  dsimp only at h
  rw [hclosed] at h
  by_cases heven : k % 2 = 0
  · rw [if_pos (by simpa using heven), Bool.and_eq_true, decide_eq_true_eq, decide_eq_true_eq,
      hlow, hhigh'] at h
    exact ⟨h.1, h.2, fun hodd => by omega⟩
  · rw [if_neg (by simpa using heven), Bool.and_eq_true, decide_eq_true_eq, decide_eq_true_eq,
      ← not_le, ← not_le, hlow', hhigh, not_le, not_le] at h
    exact ⟨h.1.le, h.2.le, fun _ => h⟩

/-- A point strictly between the ends is inside. -/
theorem contains_of_between (hk : 0 < k) {c : Nat} {g : Int}
    (hlow : (k - reachBelow k e) * 2 ^ e < (c * 10 ^ g : ℚ))
    (hhigh : (c * 10 ^ g : ℚ) < (k + 1 / 2) * 2 ^ e) : (around k e).contains c g = true := by
  obtain ⟨hlow₁, hlow₂⟩ := le_point_iff (around k e) (unit_pos k e) (low_eq hk e) c g
  obtain ⟨hhigh₁, hhigh₂⟩ := le_point_iff (around k e) (unit_pos k e) (high_eq k e) c g
  unfold contains
  dsimp only
  split
  · rw [Bool.and_eq_true, decide_eq_true_eq, decide_eq_true_eq, hlow₁, hhigh₂]
    exact ⟨hlow.le, hhigh.le⟩
  · rw [Bool.and_eq_true, decide_eq_true_eq, decide_eq_true_eq, ← not_le, ← not_le, hlow₂, hhigh₁,
      not_le, not_le]
    exact ⟨hlow, hhigh⟩

/-! ### Fine grids -/

/-- The number lies between a point and the next one. -/
theorem floorAt_bounds (k : Nat) (e : Int) (g : Int) :
    ((around k e).floorAt g * 10 ^ g : ℚ) ≤ k * 2 ^ e ∧
      (k * 2 ^ e : ℚ) < ((around k e).floorAt g + 1 : Nat) * 10 ^ g := by
  have hpos : 0 < (around k e).unit * tenPow g :=
    Nat.mul_pos (twoPow_pos _) (tenPow_pos _)
  have hle := Nat.div_mul_le_self ((around k e).mid * tenPow (-g)) ((around k e).unit * tenPow g)
  have hlt := Nat.lt_mul_div_succ ((around k e).mid * tenPow (-g)) hpos
  constructor
  · refine (le_point_iff (around k e) (unit_pos k e) (mid_eq k e) _ g).2.1 ?_
    rw [Nat.mul_assoc, Nat.mul_comm (tenPow g)]
    exact hle
  · refine not_le.1 fun h => ?_
    have hle' := (le_point_iff (around k e) (unit_pos k e) (mid_eq k e) _ g).2.2 h
    rw [Nat.mul_assoc, Nat.mul_comm (tenPow g), Nat.mul_comm] at hle'
    exact absurd hlt (not_lt.2 hle')

/-- A grid that is finer than the distance of the ends has a point inside beside the number. -/
theorem isSome_neighbour? (hk : 0 < k) {g : Int}
    (hfine : (10 : ℚ) ^ g < (reachBelow k e + 1 / 2) * 2 ^ e) :
    ((around k e).neighbour? g).isSome := by
  have hpow : (0 : ℚ) < 2 ^ e := zpow_pos two_pos _
  obtain ⟨hbelow, habove⟩ := floorAt_bounds k e g
  have hinside : (around k e).contains ((around k e).floorAt g) g = true ∨
      (around k e).contains ((around k e).floorAt g + 1) g = true := by
    by_cases hnear : (k - reachBelow k e) * 2 ^ e < ((around k e).floorAt g * 10 ^ g : ℚ)
    · refine Or.inl (contains_of_between hk hnear (hbelow.trans_lt ?_))
      exact mul_lt_mul_of_pos_right (by linarith) hpow
    · -- the point below is too far away, so the one above is near
      have hquarter := le_reachBelow k e
      refine Or.inr (contains_of_between hk (lt_trans ?_ habove) ?_)
      · exact mul_lt_mul_of_pos_right (by linarith) hpow
      · push_cast
        linarith
  unfold neighbour?
  dsimp only
  rcases hinside with h | h
  · rw [h]
    cases (around k e).contains ((around k e).floorAt g + 1) g <;> rfl
  · rw [h]
    cases (around k e).contains ((around k e).floorAt g) g <;> rfl

theorem contains_of_neighbour? {i : Interval} {g : Int} {c : Nat} (h : i.neighbour? g = some c) :
    i.contains c g = true := by
  unfold neighbour? at h
  dsimp only at h
  split at h
  · split at h <;> cases h <;> assumption
  · cases h
    assumption
  · cases h
    assumption
  · cases h

/-- The first neighbour that is found is inside, if there is one on the last grid. -/
theorem contains_firstNeighbour (i : Interval) {last : Int} (h : (i.neighbour? last).isSome)
    (more : Nat) :
    i.contains (i.firstNeighbour (more + 1) (last + more)).coefficient
      (i.firstNeighbour (more + 1) (last + more)).exponent = true := by
  induction more with
  | zero =>
      obtain ⟨c, hc⟩ := Option.isSome_iff_exists.1 h
      simp only [firstNeighbour, Int.natCast_zero, Int.add_zero, hc]
      exact contains_of_neighbour? hc
  | succ more ih =>
      rw [firstNeighbour]
      split
      · exact contains_of_neighbour? ‹_›
      · rw [show last + ((more + 1 : Nat) : Int) - 1 = last + more by omega]
        exact ih

/-- The number reaches the power of ten that is found, if it reaches the one before the estimate. -/
theorem zpow_magnitude_le {estimate : Int} (h : (10 : ℚ) ^ (estimate - 1) ≤ k * 2 ^ e) :
    (10 : ℚ) ^ (around k e).magnitude estimate ≤ k * 2 ^ e := by
  have hreaches : ∀ p : Int, (around k e).unit * tenPow p ≤ (around k e).mid * tenPow (-p) →
      (10 : ℚ) ^ p ≤ k * 2 ^ e := by
    intro p hp
    have hpoint := (le_point_iff (around k e) (unit_pos k e) (mid_eq k e) 1 p).2.1 (by
      rw [Nat.one_mul, Nat.mul_comm]
      exact hp)
    rwa [Nat.cast_one, one_mul] at hpoint
  unfold magnitude
  dsimp only
  split
  · exact hreaches _ (of_decide_eq_true ‹_›)
  · split
    · exact hreaches _ (of_decide_eq_true ‹_›)
    · exact h

end Interval

/-! ### The estimate -/

/-- The power of ten that is estimated from the length in bits is at most one too large. -/
theorem ten_pow_le_two_pow {m l : Int} (hm : 100000 * m ≤ 30103 * l) (hlow : -1200 ≤ l)
    (hhigh : l ≤ 1200) : (10 : ℚ) ^ (m - 1) ≤ 2 ^ l := by
  rcases le_or_gt 1 m with hpos | hneg
  · -- ninety-three decimal digits take no more than 309 bits
    obtain ⟨n, hn⟩ := Int.eq_ofNat_of_zero_le (a := m - 1) (by omega)
    obtain ⟨b, rfl⟩ := Int.eq_ofNat_of_zero_le (a := l) (by omega)
    have hpow : 10 ^ n ≤ 2 ^ b := by
      refine (Nat.pow_le_pow_iff_left (n := 93) (by decide)).1 ?_
      calc (10 ^ n) ^ 93 = (10 ^ 93) ^ n := by rw [← pow_mul, ← pow_mul, Nat.mul_comm]
        _ ≤ (2 ^ 309) ^ n := Nat.pow_le_pow_left (by decide +kernel) n
        _ = 2 ^ (309 * n) := by rw [← pow_mul]
        _ ≤ 2 ^ (b * 93) := Nat.pow_le_pow_right (by decide) (by omega)
        _ = (2 ^ b) ^ 93 := by rw [pow_mul]
    rw [hn]
    exact_mod_cast hpow
  · -- and twenty-eight take no less than 93
    obtain ⟨n, hn⟩ := Int.eq_ofNat_of_zero_le (a := 1 - m) (by omega)
    have hbits : ∃ b : Nat, -l ≤ b ∧ 28 * b ≤ 93 * n := ⟨(-l).toNat, by omega, by omega⟩
    obtain ⟨b, hb, hbn⟩ := hbits
    have hpow : 2 ^ b ≤ 10 ^ n := by
      refine (Nat.pow_le_pow_iff_left (n := 28) (by decide)).1 ?_
      calc (2 ^ b) ^ 28 = 2 ^ (28 * b) := by rw [← pow_mul, Nat.mul_comm]
        _ ≤ 2 ^ (93 * n) := Nat.pow_le_pow_right (by decide) hbn
        _ = (2 ^ 93) ^ n := by rw [pow_mul]
        _ ≤ (10 ^ 28) ^ n := Nat.pow_le_pow_left (by norm_num) n
        _ = (10 ^ n) ^ 28 := by rw [← pow_mul, ← pow_mul, Nat.mul_comm]
    have hpow' : (2 : ℚ) ^ b ≤ 10 ^ n := by exact_mod_cast hpow
    calc (10 : ℚ) ^ (m - 1) = (10 ^ n)⁻¹ := by
          rw [show m - 1 = -(n : Int) by omega, zpow_neg, zpow_natCast]
      _ ≤ (2 ^ b)⁻¹ := inv_anti₀ (by positivity) hpow'
      _ = 2 ^ (-(b : Int)) := by rw [zpow_neg, zpow_natCast]
      _ ≤ 2 ^ l := zpow_le_zpow_right₀ one_le_two (by omega)

/-! ### The shortest decimal -/

/-- Zeros at the end do not matter. -/
theorem Decimal.value_stripZeros (d : Decimal) (fuel : Nat) :
    ((d.stripZeros fuel).coefficient * 10 ^ (d.stripZeros fuel).exponent : ℚ) =
      d.coefficient * 10 ^ d.exponent := by
  induction fuel generalizing d with
  | zero => rfl
  | succ fuel ih =>
      rw [stripZeros]
      split
      · rename_i hzero
        rw [Bool.and_eq_true, beq_iff_eq] at hzero
        have hten : d.coefficient = d.coefficient / 10 * 10 := by omega
        have hcast : (d.coefficient : ℚ) = (d.coefficient / 10 : Nat) * 10 := by exact_mod_cast hten
        rw [ih, hcast, zpow_add_one₀ (by norm_num)]
        ring
      · rfl

/-- **The shortest decimal is in reach of the number.** -/
theorem reaches_shortestDecimal {k : Nat} {e : Int} (hk : CanonicalParts k e) (hpos : 0 < k) :
    Reaches k e
      ((shortestDecimal k e).coefficient * 10 ^ (shortestDecimal k e).exponent) := by
  have hpow : (0 : ℚ) < 2 ^ e := zpow_pos two_pos _
  have hlog : k.log2 < 53 := (Nat.log2_lt hpos.ne').2 hk.significand_lt
  have hleast : -1074 ≤ e := hk.least_le
  have hgreatest : e ≤ 971 := hk.le_greatest
  have hbits : (2 : ℚ) ^ ((k.log2 : Int) + e) ≤ k * 2 ^ e := by
    rw [zpow_add₀ two_ne_zero]
    refine mul_le_mul_of_nonneg_right ?_ hpow.le
    exact_mod_cast Nat.log2_self_le hpos.ne'
  have hestimate : (10 : ℚ) ^ (((k.log2 : Int) + e) * 30103 / 100000 - 1) ≤ k * 2 ^ e :=
    (ten_pow_le_two_pow (by omega) (by omega) (by omega)).trans hbits
  have hten := Interval.zpow_magnitude_le hestimate
  generalize hp : (Interval.around k e).magnitude (((k.log2 : Int) + e) * 30103 / 100000) = p at hten
  -- sixteen digits later the grid is fine enough
  have hfine : (10 : ℚ) ^ (p - 16) < (reachBelow k e + 1 / 2) * 2 ^ e := by
    have hsixteen : (10 : ℚ) ^ p = 10 ^ (p - 16) * 10 ^ 16 := by
      rw [← zpow_natCast, ← zpow_add₀ (by norm_num)]
      congr 1
      omega
    rw [hsixteen] at hten
    rw [reachBelow]
    split
    · rename_i hnarrow
      have hcast : (k : ℚ) = 2 ^ 52 := by
        rw [hnarrow.1]
        exact_mod_cast (rfl : leastFull = 2 ^ 52)
      rw [hcast] at hten
      linarith
    · have hcast : (k : ℚ) < 2 ^ 53 := by exact_mod_cast (show k < 2 ^ 53 from hk.significand_lt)
      have hmul := mul_lt_mul_of_pos_right hcast hpow
      linarith
  have hinside := Interval.contains_firstNeighbour _ (Interval.isSome_neighbour? hpos hfine) 16
  rw [show p - 16 + ((16 : Nat) : Int) = p by omega] at hinside
  have hzero : (k == 0) = false := by simpa using hpos.ne'
  simp only [shortestDecimal, hzero, Bool.false_eq_true, if_false, hp, Decimal.value_stripZeros]
  exact Interval.reaches_of_contains hpos hinside

end Cohesion
