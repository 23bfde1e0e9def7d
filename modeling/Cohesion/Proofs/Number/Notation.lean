/-
Written numbers are read back.

A finite number is written with the digits of its shortest decimal, around a point or before an
exponent.  Such a text has the parts of a number, it stands for the same decimal, and that is in
reach of the number; so reading gives the number back.

Main definitions:
* `NumberNotation.Spells` — a text has the parts of a number and stands for a decimal.

Main results:
* `NumberNotation.spells_write` — what is written stands for the shortest decimal;
* `decimalReal_eq_of_reaches` — a decimal in reach of a number is read as the number;
* `NumberNotation.exists_parts_write` — **a finite number is written so that it is read back**.
-/
import Cohesion.Number.Notation
import Cohesion.Proofs.Number.Decimals
import Cohesion.Proofs.Number.Shortest

set_option autoImplicit false

namespace Cohesion

theorem toList_toString (n : Nat) : (toString n).toList = Nat.toDigits 10 n := by
  rw [Nat.toString_eq_ofList_toDigits, String.toList_ofList]

theorem IsWholePart.take {cs : List Char} (h : IsWholePart cs) {n : Nat} (hn : 0 < n) :
    IsWholePart (cs.take n) := by
  obtain ⟨n, rfl⟩ := Nat.exists_eq_add_one_of_ne_zero hn.ne'
  cases h with
  | zero =>
      rw [List.take_succ_cons, List.take_nil]
      exact .zero
  | digits d ds hd hzero hds =>
      exact .digits d _ hd hzero fun c hc => hds c (List.mem_of_mem_take hc)

namespace NumberNotation

/-- A text has the parts of a number, is no integer, and stands for a decimal: the digits may have
zeros at the end. -/
inductive Spells (c : Nat) (e : Int) : List Char → Prop where
  /-- The parts stand one after the other. -/
  | parts {whole decimals exponent : List Char} (hwhole : IsWholePart whole)
    (hdecimals : IsDecimalPart decimals) (hexponent : IsExponentPart exponent)
    (hreal : decimals ≠ [] ∨ exponent ≠ []) (zeros : Nat)
    (hvalue : digitsValue (whole ++ decimals.tail) = c * 10 ^ zeros)
    (hpower : exponentValue exponent - decimals.tail.length = e - zeros) :
    Spells c e (whole ++ decimals ++ exponent)

/-- A power of ten is an exponent and says itself. -/
theorem isExponentPart_writeExponent (n : NumberNotation) (power : Int) :
    IsExponentPart (n.writeExponent power) ∧ exponentValue (n.writeExponent power) = power := by
  have hdigits : AreDigits (List.replicate (n.exponentDigits -
      (Nat.toDigits 10 power.natAbs).length) '0' ++ Nat.toDigits 10 power.natAbs) :=
    areDigits_append (areDigits_replicate _) (areDigits_toDigits _)
  have hne : List.replicate (n.exponentDigits - (Nat.toDigits 10 power.natAbs).length) '0' ++
      Nat.toDigits 10 power.natAbs ≠ [] := by simp
  have hvalue : digitsValue (List.replicate (n.exponentDigits -
      (Nat.toDigits 10 power.natAbs).length) '0' ++ Nat.toDigits 10 power.natAbs) =
        power.natAbs := by
    rw [digitsValue_append, digitsValue_replicate, digitsValue_toDigits, Nat.zero_mul, Nat.zero_add]
  have hwrite : n.writeExponent power = 'e' :: [if power < 0 then '-' else '+'] ++
      (List.replicate (n.exponentDigits - (Nat.toDigits 10 power.natAbs).length) '0' ++
        Nat.toDigits 10 power.natAbs) := by
    rw [writeExponent, toList_toString]
    rfl
  have hsign : [if power < 0 then '-' else '+'] = [] ∨
      [if power < 0 then '-' else '+'] = ['+'] ∨ [if power < 0 then '-' else '+'] = ['-'] := by
    split
    · exact Or.inr (Or.inr rfl)
    · exact Or.inr (Or.inl rfl)
  rw [hwrite]
  refine ⟨.digits 'e' _ _ (Or.inl rfl) hsign hne hdigits, ?_⟩
  rw [exponentValue, List.cons_append, List.tail_cons, readExponent?_digits hsign hne hdigits,
    hvalue, Option.getD_some]
  by_cases hneg : power < 0
  · rw [if_pos (by rw [if_pos hneg])]
    omega
  · rw [if_neg (by rw [if_neg hneg]; decide)]
    omega

variable {c : Nat} {e power : Int}

/-- Digits after a zero, a point and some zeros stand for their decimal. -/
theorem spells_zero_point {zeros : Nat} (he : (zeros : Int) + (Nat.toDigits 10 c).length + e = 0) :
    Spells c e ('0' :: '.' :: (List.replicate zeros '0' ++ Nat.toDigits 10 c)) := by
  have hdigits : AreDigits (List.replicate zeros '0' ++ Nat.toDigits 10 c) :=
    areDigits_append (areDigits_replicate _) (areDigits_toDigits c)
  have hparts : Spells c e
      (['0'] ++ ('.' :: (List.replicate zeros '0' ++ Nat.toDigits 10 c)) ++ []) := by
    refine .parts .zero (.digits _ (by simp) hdigits) .none (Or.inl (by simp)) 0 ?_ ?_
    · rw [List.tail_cons, digitsValue_append, digitsValue_append, digitsValue_replicate,
        digitsValue_toDigits]
      simp [digitsValue]
    · rw [List.tail_cons, List.length_append, List.length_replicate]
      have hnone : exponentValue [] = 0 := rfl
      omega
  simpa using hparts

/-- Digits with some zeros behind them and a point among them stand for their decimal. -/
theorem spells_inner_point {whole zeros : Nat} (hzero : c = 0 → whole = 0)
    (hlong : whole + 1 < (Nat.toDigits 10 c).length + zeros)
    (he : (whole : Int) = e + (Nat.toDigits 10 c).length - 1) :
    Spells c e ((Nat.toDigits 10 c ++ List.replicate zeros '0').take (whole + 1) ++
      '.' :: (Nat.toDigits 10 c ++ List.replicate zeros '0').drop (whole + 1)) := by
  have hdigits : AreDigits (Nat.toDigits 10 c ++ List.replicate zeros '0') :=
    areDigits_append (areDigits_toDigits c) (areDigits_replicate zeros)
  have hvalue : digitsValue (Nat.toDigits 10 c ++ List.replicate zeros '0') = c * 10 ^ zeros := by
    rw [digitsValue_append, digitsValue_toDigits, digitsValue_replicate, List.length_replicate]
    rfl
  have hlength : (Nat.toDigits 10 c ++ List.replicate zeros '0').length =
      (Nat.toDigits 10 c).length + zeros := by
    rw [List.length_append, List.length_replicate]
  have hwhole : IsWholePart
      ((Nat.toDigits 10 c ++ List.replicate zeros '0').take (whole + 1)) := by
    by_cases hc : c = 0
    · -- zero is written as two zeros
      subst hc
      rw [hzero rfl]
      exact .zero
    · exact ((isWholePart_toDigits c).append (toDigits_ne_zero hc) (areDigits_replicate _)).take
        (Nat.succ_pos _)
  generalize Nat.toDigits 10 c ++ List.replicate zeros '0' = padded at *
  have hdrop : padded.drop (whole + 1) ≠ [] := by
    rw [ne_eq, List.drop_eq_nil_iff]
    omega
  have hparts : Spells c e (padded.take (whole + 1) ++ ('.' :: padded.drop (whole + 1)) ++ []) := by
    refine .parts hwhole (.digits _ hdrop fun x hx => hdigits x (List.mem_of_mem_drop hx)) .none
      (Or.inl (List.cons_ne_nil _ _)) zeros ?_ ?_
    · rw [List.tail_cons, List.take_append_drop, hvalue]
    · have hnone : exponentValue [] = 0 := rfl
      rw [List.tail_cons, List.length_drop, hnone]
      omega
  rwa [List.append_nil] at hparts

/-- Digits around a point stand for their decimal. -/
theorem spells_writePositional (hzero : c = 0 → e = 0)
    (hpower : power = e + (Nat.toDigits 10 c).length - 1) :
    Spells c e (writePositional (Nat.toDigits 10 c) power) := by
  rw [writePositional]
  split
  · exact spells_zero_point (by omega)
  · refine spells_inner_point (fun hc => ?_) (by omega) (by omega)
    rw [hpower, hzero hc, hc]
    rfl

/-- Digits before an exponent stand for their decimal. -/
theorem spells_writeScientific (n : NumberNotation)
    (hpower : power = e + (Nat.toDigits 10 c).length - 1) :
    Spells c e (n.writeScientific (Nat.toDigits 10 c) power) := by
  obtain ⟨hexponent, hvalue⟩ := n.isExponentPart_writeExponent power
  have hwhole := (isWholePart_toDigits c).take Nat.one_pos
  have hdigits := areDigits_toDigits c
  have hc := digitsValue_toDigits c
  have hne : n.writeExponent power ≠ [] := List.cons_ne_nil _ _
  generalize Nat.toDigits 10 c = digits at *
  match digits with
  | [] => exact absurd hwhole.ne_nil (by simp)
  | [d] =>
      have hparts : Spells c e ([d] ++ [] ++ n.writeExponent power) := by
        refine .parts hwhole .none hexponent (Or.inr hne) 0 ?_ ?_
        · simpa using hc
        · rw [List.length_singleton] at hpower
          simp only [hvalue, List.tail_nil, List.length_nil]
          omega
      exact hparts
  | d :: d' :: more =>
      have hparts : Spells c e ([d] ++ ('.' :: d' :: more) ++ n.writeExponent power) := by
        refine .parts hwhole (.digits _ (List.cons_ne_nil _ _) fun x hx =>
          hdigits x (List.mem_cons_of_mem d hx)) hexponent (Or.inr hne) 0 ?_ ?_
        · simpa using hc
        · simp only [hvalue, List.tail_cons, List.length_cons] at hpower ⊢
          omega
      exact hparts

/-- What is written of a number stands for its shortest decimal. -/
theorem spells_write (n : NumberNotation) (s : Bool) {k : Nat}
    (hzero : (shortestDecimal k e).coefficient = 0 → (shortestDecimal k e).exponent = 0) :
    ∃ body, (n.write (.finite s k e)).toList = sign s ++ body ∧
      Spells (shortestDecimal k e).coefficient (shortestDecimal k e).exponent body := by
  rw [write]
  simp only [toList_toString, String.toList_ofList]
  refine ⟨_, rfl, ?_⟩
  split
  · exact spells_writePositional hzero rfl
  · exact spells_writeScientific n rfl

end NumberNotation

open Binary64

/-- The digits of a natural number other than zero tell it up to a factor of ten. -/
theorem toDigits_bounds {c : Nat} (hc : c ≠ 0) :
    10 ^ ((Nat.toDigits 10 c).length - 1) ≤ c ∧ c < 10 ^ (Nat.toDigits 10 c).length := by
  have hlen : 0 < (Nat.toDigits 10 c).length := Nat.length_toDigits_pos
  refine ⟨?_, (Nat.length_toDigits_le_iff (by decide) hlen).1 le_rfl⟩
  rcases Nat.eq_or_lt_of_le hlen with hone | hmore
  · rw [← hone]
    exact Nat.pos_of_ne_zero hc
  · refine not_lt.1 fun hlt => ?_
    have hshort := (Nat.length_toDigits_le_iff (b := 10) (by decide) (Nat.sub_pos_of_lt hmore)).2 hlt
    omega

theorem Binary64.Reaches.coefficient_ne_zero {k c : Nat} {e g : Int} (hpos : 0 < k)
    (h : Reaches k e (c * 10 ^ g)) : c ≠ 0 := by
  rintro rfl
  simpa using h.pos hpos

/-- What is in reach of a positive number is at least half of the least positive one. -/
theorem Binary64.Reaches.least_le {k : Nat} {e : Int} {q : ℚ} (hk : CanonicalParts k e)
    (hpos : 0 < k) (h : Reaches k e q) : (2 : ℚ) ^ (-1075 : Int) ≤ q := by
  have hone : (1 : ℚ) ≤ k := by exact_mod_cast hpos
  calc (2 : ℚ) ^ (-1075 : Int) = 1 / 2 * 2 ^ (-1074 : Int) := by
        rw [show (-1074 : Int) = -1075 + 1 from rfl, zpow_add_one₀ two_ne_zero]
        ring
    _ ≤ (k - 1 / 2) * 2 ^ e :=
        mul_le_mul (by linarith) (zpow_le_zpow_right₀ one_le_two hk.least_le) (by positivity)
          (by linarith)
    _ ≤ q := h.half_le

/-- What is in reach of a number is below the power of two behind the greatest one. -/
theorem Binary64.Reaches.lt_greatest {k : Nat} {e : Int} {q : ℚ} (hk : CanonicalParts k e)
    (h : Reaches k e q) : q < 2 ^ (1024 : Int) :=
  (h.lt_zpow hk).trans_le (zpow_le_zpow_right₀ one_le_two (Int.add_le_add_left hk.le_greatest 53))

/-- The power of ten of a decimal that is at least half of the least positive number. -/
theorem le_length_toDigits_add {c : Nat} {g : Int} (hc : c ≠ 0)
    (hleast : (2 : ℚ) ^ (-1075 : Int) ≤ c * 10 ^ g) :
    -400 ≤ ((Nat.toDigits 10 c).length : Int) + g := by
  by_contra hlt
  have hpowers : (10 : ℚ) ^ (-400 : Int) ≤ 2 ^ (-1075 : Int) := by
    rw [zpow_neg, zpow_neg, zpow_ofNat, zpow_ofNat]
    refine inv_anti₀ (by positivity) ?_
    exact_mod_cast (by decide +kernel : 2 ^ 1075 ≤ 10 ^ 400)
  refine absurd hleast (not_le.2 ?_)
  calc (c * 10 ^ g : ℚ) < 10 ^ (((Nat.toDigits 10 c).length : Int) + g) := by
        rw [zpow_add₀ (by norm_num), zpow_natCast]
        exact mul_lt_mul_of_pos_right (by exact_mod_cast (toDigits_bounds hc).2)
          (zpow_pos (by norm_num) _)
    _ ≤ 10 ^ (-400 : Int) := zpow_le_zpow_right₀ (by norm_num) (by omega)
    _ ≤ 2 ^ (-1075 : Int) := hpowers

/-- The power of ten of a decimal that is below the power of two behind the greatest number. -/
theorem length_toDigits_add_le {c : Nat} {g : Int} (hc : c ≠ 0)
    (hgreatest : (c * 10 ^ g : ℚ) < 2 ^ (1024 : Int)) :
    ((Nat.toDigits 10 c).length : Int) + g ≤ 400 := by
  by_contra hlt
  have hlen : 0 < (Nat.toDigits 10 c).length := Nat.length_toDigits_pos
  have hpowers : (2 : ℚ) ^ (1024 : Int) ≤ 10 ^ (400 : Int) := by
    rw [zpow_ofNat, zpow_ofNat]
    exact_mod_cast (by decide +kernel : 2 ^ 1024 ≤ 10 ^ 400)
  refine absurd hgreatest (not_lt.2 ?_)
  calc (2 : ℚ) ^ (1024 : Int) ≤ 10 ^ (400 : Int) := hpowers
    _ ≤ 10 ^ ((((Nat.toDigits 10 c).length - 1 : Nat) : Int) + g) :=
        zpow_le_zpow_right₀ (by norm_num) (by omega)
    _ ≤ c * 10 ^ g := by
        rw [zpow_add₀ (by norm_num), zpow_natCast]
        exact mul_le_mul_of_nonneg_right (by exact_mod_cast (toDigits_bounds hc).1) (by positivity)

/-- A decimal in reach of a number is read as the number. -/
theorem decimalReal_eq_of_reaches {k c : Nat} {e g : Int} (hk : CanonicalParts k e) (hpos : 0 < k)
    (h : Reaches k e (c * 10 ^ g)) (s : Bool) : decimalReal s c g = .finite s k e := by
  have hc := h.coefficient_ne_zero hpos
  -- the decimal is neither so small nor so large that it would not be rounded
  have hsmall := not_lt.2 (le_length_toDigits_add hc (h.least_le hk hpos))
  have hlarge := not_lt.2 (length_toDigits_add_le hc (h.lt_greatest hk))
  have hlength : (toString c).length = (Nat.toDigits 10 c).length := by
    rw [← String.length_toList, toList_toString]
  have hfraction : ((c * tenPow g : Nat) / tenPow (-g) : ℚ) = c * 10 ^ g := by
    have hden : (tenPow (-g) : ℚ) ≠ 0 := by exact_mod_cast (tenPow_pos (-g)).ne'
    rw [Nat.cast_mul, tenPow_eq_zpow_mul g, ← mul_assoc, mul_div_cancel_right₀ _ hden]
  simp only [decimalReal, hlength]
  rw [if_neg (by simp [hc, hsmall]), if_neg hlarge, ofDecimal]
  exact nearest_eq_of_reaches hk hpos (tenPow_pos _) (hfraction ▸ h) s

namespace NumberNotation

/-- A text that stands for the shortest decimal of a number is read as the number. -/
theorem Spells.unsignedReal?_eq {k : Nat} {e : Int} {body : List Char} (hk : CanonicalParts k e)
    (h : Spells (shortestDecimal k e).coefficient (shortestDecimal k e).exponent body) (s : Bool) :
    unsignedReal? s body = some (.finite s k e) := by
  cases h with
  | parts hwhole hdecimals hexponent hreal zeros hvalue hpower =>
      rw [unsignedReal?_parts hwhole hdecimals hexponent, hvalue, hpower]
      congr 1
      rcases Nat.eq_zero_or_pos k with rfl | hpos
      · -- zero has the least exponent
        have hleast : e = leastExponent := by
          refine le_antisymm (not_lt.1 fun hlt => ?_) hk.least_le
          exact absurd (hk.full hlt) (by decide)
        rw [hleast]
        exact congrArg (decimalReal s · _) (Nat.zero_mul _)
      · refine decimalReal_eq_of_reaches hk hpos ?_ s
        have hreaches := reaches_shortestDecimal hk hpos
        have hten : (10 : ℚ) ≠ 0 := by norm_num
        rw [Nat.cast_mul, Nat.cast_pow, zpow_sub₀ hten, zpow_natCast, Nat.cast_ofNat, mul_assoc,
          mul_div_cancel₀ _ (pow_ne_zero _ hten)]
        exact hreaches

/-- **A finite number is written so that it is read back**: with the parts of a number that is no
integer. -/
theorem exists_parts_write (n : NumberNotation) (s : Bool) {k : Nat} {e : Int}
    (hk : CanonicalParts k e) :
    ∃ whole decimals exponent,
      (n.write (.finite s k e)).toList = sign s ++ (whole ++ decimals ++ exponent) ∧
        IsWholePart whole ∧ IsDecimalPart decimals ∧ IsExponentPart exponent ∧
        (decimals ≠ [] ∨ exponent ≠ []) ∧
        unsignedReal? s (whole ++ decimals ++ exponent) = some (.finite s k e) := by
  have hzero : (shortestDecimal k e).coefficient = 0 → (shortestDecimal k e).exponent = 0 := by
    rcases Nat.eq_zero_or_pos k with rfl | hpos
    · exact fun _ => rfl
    · exact fun h => absurd h ((reaches_shortestDecimal hk hpos).coefficient_ne_zero hpos)
  obtain ⟨body, hwrite, hbody⟩ := n.spells_write s hzero
  have hread := hbody.unsignedReal?_eq hk s
  cases hbody with
  | parts hwhole hdecimals hexponent hreal =>
      exact ⟨_, _, _, hwrite, hwhole, hdecimals, hexponent, hreal, hread⟩

end NumberNotation

end Cohesion
