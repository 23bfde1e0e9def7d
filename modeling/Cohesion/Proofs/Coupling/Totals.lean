/-
Totals and couplings of accepted calls.

The words of a coupling matrix are the words of exact sums: an entry that of the tallies of its two
units, the total that of all counts.  A single count fits into a word because larger ones are not
accepted, but nothing keeps the sums below `2 ^ 63`.  Where they are, they are exact.

Main results:
* `CouplingMatrix.total_of_build` — the total is the word of the sum of all counts;
* `CouplingMatrix.symmetric_of_build` — an entry is the word of the calls in both directions;
* `CouplingMatrix.coupling_of_build` — the coupling of two units is a quotient of these words;
* `CouplingMatrix.sum_eq_pairSum` — the sum of all counts is made up of the pairs of units.
-/
import Cohesion.Proofs.Coupling.Build
import Mathlib.Data.List.ProdSigma

set_option autoImplicit false

namespace Cohesion

namespace CouplingMatrix

/-! ### The sum of a table -/

theorem entries_tableOf {n : Nat} (incs : List (Increment n)) :
    (tableOf incs).entries = (List.finRange n ×ˢ List.finRange n).map fun p =>
      Int64.ofInt (recorded incs p.1 p.2) := by
  have hrow : ∀ i, (tableOf incs).get i = fun j => Int64.ofInt (recorded incs i j) := by
    intro i
    funext j
    exact get_tableOf incs i j
  simp only [Table.entries, hrow, SProd.sprod, List.product, List.map_flatMap, List.map_map,
    Function.comp_def]

/-- The sum of a table of increments is the word of the sum of their counts. -/
theorem sum_tableOf {n : Nat} (incs : List (Increment n)) :
    (tableOf incs).sum = Int64.ofInt (incs.map (·.count.toInt)).sum := by
  have hcross : ((List.finRange n ×ˢ List.finRange n).map fun p => recorded incs p.1 p.2).sum =
      crossSum (recorded incs) (List.finRange n) (List.finRange n) := by
    simp only [SProd.sprod, List.product, List.map_flatMap, List.map_map]
    rw [List.flatMap_def, List.sum_flatten, List.map_map]
    rfl
  rw [Table.sum, entries_tableOf, Table.sumWords_map_ofInt, hcross, crossSum_finRange,
    sum_recorded]

/-! ### Accepted calls -/

section

variable {units : List CodeUnit} {calls : List Call} {m : CouplingMatrix}
  (h : build units calls = .ok m)

include h

/-- The total is the word of the sum of all counts. -/
theorem total_of_build : m.total = Int64.ofInt (sumOf (calls.map (·.count))) := by
  obtain ⟨-, -, incs, hcounts, -, -, hsum, -⟩ := exists_of_build_eq_ok h
  rw [m.total_eq, hcounts, sum_tableOf, hsum]

/-- An entry is the word of the calls between its units in both directions. -/
theorem symmetric_of_build (i j : Fin m.units.size) : m.symmetric.get i j =
    Int64.ofInt (Call.tally calls (m.unitAt i) (m.unitAt j) +
      Call.tally calls (m.unitAt j) (m.unitAt i)) := by
  obtain ⟨-, -, incs, hcounts, -, -, -, htally⟩ := exists_of_build_eq_ok h
  rw [symmetric_get, hcounts, get_tableOf, get_tableOf, htally, htally, Int64.ofInt_add]

theorem sum_nonneg_of_build : 0 ≤ sumOf (calls.map (·.count)) := by
  obtain ⟨-, -, incs, -, -, hpos, hsum, -⟩ := exists_of_build_eq_ok h
  rw [← hsum]
  refine List.sum_nonneg fun k hk => ?_
  obtain ⟨inc, hinc, rfl⟩ := List.mem_map.1 hk
  exact hpos inc hinc

/-- Counts that sum to less than `2 ^ 63` have an exact total. -/
theorem toInt_total_of_build (hsum : sumOf (calls.map (·.count)) < 2 ^ 63) :
    m.total.toInt = sumOf (calls.map (·.count)) := by
  have hpos := sum_nonneg_of_build h
  rw [total_of_build h]
  exact Int64.toInt_ofInt_of_le (by omega) hsum

/-- The calls between two units are some of all calls. -/
theorem tally_bounds_of_build (i j : Fin m.units.size) :
    0 ≤ Call.tally calls (m.unitAt i) (m.unitAt j) ∧
      Call.tally calls (m.unitAt i) (m.unitAt j) + Call.tally calls (m.unitAt j) (m.unitAt i) ≤
        sumOf (calls.map (·.count)) := by
  obtain ⟨-, -, incs, -, hne, hpos, hsum, htally⟩ := exists_of_build_eq_ok h
  rw [← htally, ← htally, ← hsum]
  exact ⟨recorded_nonneg hpos i j, recorded_add_le hpos hne i j⟩

/-- Counts that sum to less than `2 ^ 63` have exact numbers of calls between any two units. -/
theorem weight_of_build (hsum : sumOf (calls.map (·.count)) < 2 ^ 63) (i j : Fin m.units.size) :
    m.weight i.val j.val =
      Call.tally calls (m.unitAt i) (m.unitAt j) + Call.tally calls (m.unitAt j) (m.unitAt i) := by
  obtain ⟨hij, hle⟩ := tally_bounds_of_build h i j
  obtain ⟨hji, -⟩ := tally_bounds_of_build h j i
  rw [weight_coe, symmetric_of_build h, Int64.toInt_ofInt_of_le (by omega) (by omega)]

/-- A unit does not call itself. -/
theorem tally_self_of_build (i : Fin m.units.size) :
    Call.tally calls (m.unitAt i) (m.unitAt i) = 0 := by
  obtain ⟨-, -, incs, -, hne, -, -, htally⟩ := exists_of_build_eq_ok h
  rw [← htally, recorded_self hne]

/-- The sum of all counts is made up of the pairs of units. -/
theorem sum_eq_pairSum : sumOf (calls.map (·.count)) =
    pairSum (fun i j : Fin m.units.size =>
      Call.tally calls (m.unitAt i) (m.unitAt j) + Call.tally calls (m.unitAt j) (m.unitAt i))
      (List.finRange m.units.size) := by
  obtain ⟨-, -, incs, -, hne, -, hsum, htally⟩ := exists_of_build_eq_ok h
  rw [← hsum, ← pairSum_recorded hne]
  simp only [htally]

theorem pairSum_weight_of_build (hsum : sumOf (calls.map (·.count)) < 2 ^ 63) :
    pairSum m.weight m.positions = sumOf (calls.map (·.count)) := by
  obtain ⟨-, -, incs, hcounts, hne, hpos, htotal, -⟩ := exists_of_build_eq_ok h
  rw [← htotal] at hsum ⊢
  exact pairSum_weight_of_counts hcounts hpos hne hsum

/-- The coupling of two different units that are listed is the quotient of two words: that of the
calls between them and that of all calls. -/
theorem coupling_of_build {a b : CodeUnit} (ha : m.contains a = true) (hb : m.contains b = true)
    (hab : a.same b = false) (htotal : m.total ≠ 0) :
    m.coupling a b = Binary64.ratio
      (Int64.ofInt (Call.tally calls a b + Call.tally calls b a)).toInt m.total.toInt := by
  obtain ⟨i, hi⟩ := Option.isSome_iff_exists.1 ha
  obtain ⟨j, hj⟩ := Option.isSome_iff_exists.1 hb
  have hia : (m.unitAt i).same a = true := same_of_position? hi
  have hjb : (m.unitAt j).same b = true := same_of_position? hj
  have hij : i ≠ j := by
    rintro rfl
    rw [CodeUnit.same_iff] at hia hjb
    rw [← Bool.not_eq_true, CodeUnit.same_iff] at hab
    exact hab (hia.symm.trans hjb)
  have htotal' : (m.total == 0) = false := by simpa using htotal
  rw [coupling, hi, hj]
  simp only [couplingAt, if_neg hij, normalize, htotal']
  rw [symmetric_of_build h, Call.tally_congr calls hia hjb, Call.tally_congr calls hjb hia]
  rfl

end

end CouplingMatrix

end Cohesion
