/-
The numbers that there are.

A number is given by a significand and an exponent, and multiplying the one by two and lowering the
other makes no difference to its value.  But what a quotient is rounded to is always given in one
form: with a significand of full length, or with the least exponent.  In this form two finite
numbers other than zero are numerically equal only if they are the same.

Main definitions:
* `Binary64.Canonical` — a number is given in this form.

Main results:
* `Binary64.canonical_nearest`, `Binary64.canonical_ratio`, `Binary64.canonical_div`,
  `Binary64.canonical_roundTo` — results of rounding are canonical;
* `Binary64.canonical_readReal`, `Binary64.representable_readReal` — every number that is read is
  canonical, and so it is within the limits;
* `Binary64.Canonical.eq_of_isValue` — **a positive value has one canonical form**.
-/
import Cohesion.Number.Reading
import Cohesion.Proofs.Number.Error

set_option autoImplicit false

namespace Cohesion

/-- A quotient that is at least a natural number is rounded to at least that. -/
theorem le_halfEven {num den k : Nat} (hden : 0 < den) (h : k * den ≤ num) :
    k ≤ halfEven num den := by
  have hquot : k ≤ num / den := (Nat.le_div_iff_mul_le hden).2 h
  simp only [halfEven]
  split
  · exact hquot.trans (Nat.le_succ _)
  · exact hquot

namespace Binary64

variable {num den : Nat}

/-- A fraction that is at least a multiple of a power of two is rounded to no less at that power. -/
theorem le_roundAt {k : Nat} {e : Int} (hden : 0 < den) (hle : (k * 2 ^ e : ℚ) ≤ num / den) :
    k ≤ roundAt num den e := by
  refine le_halfEven (Nat.mul_pos hden (twoPow_pos _)) ?_
  have hpos : (0 : ℚ) < (den * twoPow e : Nat) := by
    exact_mod_cast Nat.mul_pos hden (twoPow_pos _)
  have hdiv : (k : ℚ) ≤ ((num * twoPow (-e) : Nat) : ℚ) / (den * twoPow e : Nat) := by
    rw [div_twoPow_eq, le_div_iff₀ (zpow_pos two_pos _)]
    exact hle
  rw [le_div_iff₀ hpos] at hdiv
  exact_mod_cast hdiv

/-- A finite number has a significand of full length or the least exponent, and neither is beyond
the limits. -/
structure CanonicalParts (k : Nat) (e : Int) : Prop where
  /-- The significand is not too long. -/
  significand_lt : k < significandEnd
  /-- The exponent is not too small. -/
  least_le : leastExponent ≤ e
  /-- The exponent is not too large. -/
  le_greatest : e ≤ greatestExponent
  /-- Above the least exponent the significand has full length. -/
  full : leastExponent < e → leastFull ≤ k

/-- A number is given in the form in which all results are. -/
def Canonical : Binary64 → Prop
  | finite _ k e => CanonicalParts k e
  | _ => True

theorem canonical_zero (s : Bool) : (zero s).Canonical :=
  ⟨by decide, by decide, by decide, fun h => absurd h (lt_irrefl _)⟩

/-- What a fraction is rounded to is canonical. -/
theorem canonical_nearest (s : Bool) (num : Nat) (hden : den ≠ 0) :
    (nearest s num den).Canonical := by
  by_cases hnum : num = 0
  · subst hnum
    exact canonical_zero s
  have hpos : 0 < den := Nat.pos_of_ne_zero hden
  have hden' : (0 : ℚ) < den := by exact_mod_cast hpos
  obtain ⟨e, heq, hfull, hbefore⟩ := exists_exponentFor hnum hden
  have hleast : leastExponent ≤ exponentFor num den := heq ▸ le_max_left _ _
  have hround : roundAt num den (exponentFor num den) ≤ significandEnd := by
    refine halfEven_le (Nat.mul_pos hpos (twoPow_pos _)) (le_of_not_ge ?_)
    exact fun h => hfull (Overfull.mono h (heq ▸ le_max_right _ _))
  -- above the least exponent the quotient fills the significand
  have hlong : leastExponent < exponentFor num den →
      leastFull ≤ roundAt num den (exponentFor num den) := by
    intro hlt
    have hexp : exponentFor num den = e := by
      rw [heq] at hlt ⊢
      exact max_eq_right (le_of_lt ((lt_max_iff.1 hlt).resolve_left (lt_irrefl _)))
    rw [overfull_iff, ← le_div_iff₀ hden'] at hbefore
    refine le_roundAt hpos ?_
    have hleastFull : (leastFull : ℚ) = 2 ^ (52 : Int) := by
      exact_mod_cast (rfl : leastFull = 2 ^ 52)
    rw [hexp, hleastFull, ← zpow_add₀ two_ne_zero]
    rwa [show 53 + (e - 1) = 52 + e by omega] at hbefore
  have hzero : (num == 0) = false := by simpa using hnum
  by_cases hend : roundAt num den (exponentFor num den) = significandEnd
  · simp only [nearest, hzero, hend, beq_self_eq_true, Bool.false_eq_true, if_false, if_true]
    split
    · trivial
    · exact ⟨by decide, by omega, by omega, fun _ => le_rfl⟩
  · have hend' : (roundAt num den (exponentFor num den) == significandEnd) = false := by
      simpa using hend
    simp only [nearest, hzero, hend', Bool.false_eq_true, if_false]
    split
    · trivial
    · exact ⟨hround.lt_of_ne hend, hleast, by omega, hlong⟩

theorem canonical_ofDecimal (s : Bool) (coefficient : Nat) (exponent : Int) :
    (ofDecimal s coefficient exponent).Canonical :=
  canonical_nearest s _ (Nat.pow_pos (by decide)).ne'

theorem canonical_ratio (n d : Int) : (ratio n d).Canonical := by
  rw [ratio]
  split
  · trivial
  · rename_i hd
    exact canonical_nearest _ _ (Int.natAbs_ne_zero.2 fun h => hd (beq_iff_eq.2 h))

theorem canonical_div (x y : Binary64) : (x.div y).Canonical := by
  cases x <;> cases y <;> try trivial
  · rw [div]
    split
    · split <;> trivial
    · rename_i hzero
      refine canonical_nearest _ _ (Nat.mul_ne_zero (fun h => hzero (beq_iff_eq.2 h)) ?_)
      exact (twoPow_pos _).ne'
  · exact canonical_zero _

theorem canonical_roundTo (places : Nat) {x : Binary64} (hx : x.Canonical) :
    (x.roundTo places).Canonical := by
  cases x with
  | finite s k e => exact canonical_nearest _ _ (Nat.pow_pos (by decide)).ne'
  | infinite s => exact hx
  | nan => exact hx

theorem canonical_decimalReal (s : Bool) (coefficient : Nat) (exponent : Int) :
    (decimalReal s coefficient exponent).Canonical := by
  unfold decimalReal
  dsimp only
  split
  · exact canonical_zero s
  · split
    · trivial
    · exact canonical_ofDecimal s _ _

theorem canonical_unsignedReal {s : Bool} {cs : List Char} {x : Binary64}
    (h : unsignedReal? s cs = some x) : x.Canonical := by
  unfold unsignedReal? at h
  dsimp only at h
  split at h
  · cases h
    trivial
  · split at h
    · cases h
      trivial
    · simp only [Option.bind_eq_bind, Option.bind_eq_some_iff] at h
      obtain ⟨⟨whole, decimals, rest⟩, -, h⟩ := h
      -- whatever the exponent is
      have hread : ∃ exponent,
          some (decimalReal s (digitsValue (whole ++ decimals)) exponent) = some x := by
        split at h
        · exact ⟨_, h⟩
        · obtain ⟨exponent, -, h⟩ := Option.bind_eq_some_iff.1 h
          exact ⟨_, h⟩
        · obtain ⟨exponent, -, h⟩ := Option.bind_eq_some_iff.1 h
          exact ⟨_, h⟩
        · cases h
      obtain ⟨exponent, hread⟩ := hread
      cases hread
      exact canonical_decimalReal _ _ _

/-- Every number that is read from a text is canonical. -/
theorem canonical_readReal {text : String} {x : Binary64} (h : readReal? text = some x) :
    x.Canonical := by
  simp only [readReal?, Option.bind_eq_bind, Option.bind_eq_some_iff] at h
  obtain ⟨cs, -, h⟩ := h
  exact canonical_unsignedReal h

/-- A number in this form is within the limits. -/
theorem Canonical.representable {x : Binary64} (h : x.Canonical) : x.Representable := by
  cases x with
  | finite s k e => exact ⟨h.significand_lt, h.least_le⟩
  | infinite s => trivial
  | nan => trivial

/-- Every number that is read from a text is representable. -/
theorem representable_readReal {text : String} {x : Binary64} (h : readReal? text = some x) :
    x.Representable := (canonical_readReal h).representable

/-! ### One form for each value -/

/-- A significand that stands for the same value at a smaller exponent is longer. -/
theorem CanonicalParts.le_of_eq {k l : Nat} {e f : Int} (hk : CanonicalParts k e)
    (hl : CanonicalParts l f) (h : (k * 2 ^ e : ℚ) = l * 2 ^ f) : f ≤ e := by
  by_contra hlt
  obtain ⟨n, hn⟩ := Int.eq_ofNat_of_zero_le (Int.sub_nonneg_of_le (not_le.1 hlt).le)
  have hfull : leastFull ≤ l := hl.full (hk.least_le.trans_lt (not_le.1 hlt))
  have hscale : (k : ℚ) = (l * 2 ^ n : Nat) := by
    have hsum : f = n + e := by omega
    rw [hsum, zpow_add₀ two_ne_zero, zpow_natCast, ← mul_assoc] at h
    exact_mod_cast mul_right_cancel₀ (zpow_ne_zero e two_ne_zero) h
  have hscale' : k = l * 2 ^ n := by exact_mod_cast hscale
  have htwo : 2 ≤ 2 ^ n := by
    have hpos : n ≠ 0 := by omega
    exact Nat.le_self_pow hpos 2
  have hlong : leastFull * 2 ≤ k := hscale' ▸ Nat.mul_le_mul hfull htwo
  exact absurd hk.significand_lt (not_lt.2 hlong)

/-- **A positive value has one canonical form.** -/
theorem Canonical.eq_of_isValue {x y : Binary64} {q : ℚ} (hx : x.Canonical) (hy : y.Canonical)
    (hxq : x.IsValue q) (hyq : y.IsValue q) (hq : 0 < q) : x = y := by
  obtain ⟨k, e, rfl, hke⟩ := exists_finite_of_isValue hxq hq
  obtain ⟨l, f, rfl, hlf⟩ := exists_finite_of_isValue hyq hq
  have hvalue : (k * 2 ^ e : ℚ) = l * 2 ^ f := hke.symm.trans hlf
  obtain rfl : e = f := le_antisymm (hy.le_of_eq hx hvalue.symm) (hx.le_of_eq hy hvalue)
  have hkl : (k : ℚ) = l := mul_right_cancel₀ (zpow_ne_zero e two_ne_zero) hvalue
  rw [show k = l by exact_mod_cast hkl]

end Binary64

end Cohesion
