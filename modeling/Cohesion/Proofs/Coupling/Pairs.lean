/-
The pairs with calls between them.

A matrix lists the pairs of units whose coupling is positive, the earlier unit first, row by row.
Where the counts sum to less than `2 ^ 63` these are the pairs with calls between them, because no
share of all calls is so small that it is rounded to zero.  Pairs without calls add nothing, so the
calls of the listed pairs are all calls, and their shares add up to one.

Main definitions:
* `CouplingMatrix.bothWays` — the calls of a pair in both directions;
* `CouplingMatrix.calledPlaces` — the positions of the pairs with calls between them;
* `CouplingMatrix.ListsPairs` — what the pairs of a matrix are, and what they add up to.

Main results:
* `CouplingMatrix.sum_positionPairs` — a sum over the positions of all pairs;
* `CouplingMatrix.positive_couplingAt_iff` — which couplings are positive;
* `CouplingMatrix.sum_bothWays_of_build` — the calls of all pairs are all calls;
* `CouplingMatrix.lists_pairs` — **the pairs of accepted calls**.
-/
import Cohesion.Report.Basic
import Cohesion.Proofs.Clustering.Extension
import Cohesion.Proofs.Clustering.PlainLinkage
import Cohesion.Proofs.Coupling.Outcome
import Cohesion.Proofs.Number.Error

set_option autoImplicit false

namespace Cohesion

/-! ### Sums over pairs of positions -/

namespace CouplingMatrix

/-- In an ascending list the later elements are those that are greater. -/
theorem sum_flatMap_filter_lt {n : Nat} (w : Fin n → Fin n → Int) {xs : List (Fin n)}
    (hsorted : xs.Pairwise (· < ·)) :
    ((xs.flatMap fun i => (xs.filter (i < ·)).map (i, ·)).map fun p => w p.1 p.2).sum =
      pairSum w xs := by
  induction xs with
  | nil => rfl
  | cons a xs ih =>
      rw [List.pairwise_cons] at hsorted
      obtain ⟨hfirst, htail⟩ := hsorted
      have hrow : (a :: xs).filter (a < ·) = xs := by
        rw [List.filter_cons_of_neg (by simp), List.filter_eq_self.2]
        intro b hb
        simpa using hfirst b hb
      have hrows : ∀ i ∈ xs, (a :: xs).filter (i < ·) = xs.filter (i < ·) := by
        intro i hi
        refine List.filter_cons_of_neg ?_
        simpa using (hfirst i hi).le
      have hrest : (xs.flatMap fun i => ((a :: xs).filter (i < ·)).map (i, ·)) =
          xs.flatMap fun i => (xs.filter (i < ·)).map (i, ·) := by
        refine List.flatMap_congr fun i hi => ?_
        rw [hrows i hi]
      rw [List.flatMap_cons, hrow, hrest, List.map_append, List.sum_append, ih htail, pairSum,
        List.map_map]
      rfl

/-- A sum over the positions of all pairs is a sum over the unordered pairs of positions. -/
theorem sum_positionPairs {n : Nat} (w : Fin n → Fin n → Int) :
    ((positionPairs n).map fun p => w p.1 p.2).sum = pairSum w (List.finRange n) :=
  sum_flatMap_filter_lt w (List.sortedLT_finRange n).pairwise

/-- What is zero adds nothing. -/
theorem sum_map_filter_of_zero {α : Type} (f : α → Int) {p : α → Bool} (xs : List α)
    (hzero : ∀ x ∈ xs, p x = false → f x = 0) : ((xs.filter p).map f).sum = (xs.map f).sum := by
  induction xs with
  | nil => rfl
  | cons x xs ih =>
      rw [List.forall_mem_cons] at hzero
      have htail := ih hzero.2
      cases hx : p x with
      | false => simp [hx, htail, hzero.1 hx]
      | true => simp [hx, htail]

/-! ### The pairs of a matrix -/

/-- The calls of a pair in both directions. -/
def bothWays (m : CouplingMatrix) (p : CoupledPair) : Int :=
  (m.calls p.first p.second).toInt + (m.calls p.second p.first).toInt

/-- The positions of the pairs with calls between them, in order. -/
def calledPlaces (m : CouplingMatrix) : List (Fin m.units.size × Fin m.units.size) :=
  (positionPairs m.units.size).filter fun p => 0 < m.weight p.1.val p.2.val

/-- The pair of the units at two positions. -/
def pairAt (m : CouplingMatrix) (p : Fin m.units.size × Fin m.units.size) : CoupledPair :=
  ⟨m.unitAt p.1, m.unitAt p.2, m.coupling (m.unitAt p.1) (m.unitAt p.2)⟩

/-- What the pairs of a matrix are, and what they add up to. -/
structure ListsPairs (units : List CodeUnit) (calls : List Call) (m : CouplingMatrix) : Prop where
  /-- The units are kept in their order. -/
  listed : m.units.toList = units
  /-- The pairs are those of an earlier and a later unit with a positive coupling, ordered by their
  first and then by their second position. -/
  places : ∃ places : List (Fin m.units.size × Fin m.units.size),
    (places.Pairwise fun p q => p.1 < q.1 ∨ p.1 = q.1 ∧ p.2 < q.2) ∧
    (∀ i j, (i, j) ∈ places ↔
      i < j ∧ (Binary64.zero false).lt (m.coupling (m.unitAt i) (m.unitAt j)) = true) ∧
    m.pairs = places.map m.pairAt
  /-- Couplings are symmetric. -/
  symmetric : ∀ a b, m.coupling a b = m.coupling b a
  /-- A unit has no coupling with itself or with a unit that is not listed. -/
  uncoupled : ∀ a b : CodeUnit, a.same b = true ∨ ¬a.Listed units ∨ ¬b.Listed units →
    m.coupling a b = .zero false
  /-- All counts are summed. -/
  total : m.total.toInt = sumOf (calls.map (·.count))
  /-- The calls of the pairs are all calls. -/
  accounted : (m.pairs.map m.bothWays).sum = m.total.toInt
  /-- The coupling of a pair is its share of all calls. -/
  share : ∀ p ∈ m.pairs, p.coupling = .ratio (m.bothWays p) m.total.toInt
  /-- The shares add up to one. -/
  shares : 0 < m.total.toInt → (m.pairs.map fun p => (m.bothWays p / m.total.toInt : ℚ)).sum = 1
  /-- The calls in the rows of a report are all calls. -/
  report : ∀ (a : Analysis) (path : Path) (threshold : Binary64) (methodCalls : MethodCalls),
    a.matrix = m → ((Report.ofAnalysis a path threshold methodCalls).rows.map (·.calls)).sum =
      (Report.ofAnalysis a path threshold methodCalls).totalCalls

theorem coupling_comm (m : CouplingMatrix) (a b : CodeUnit) : m.coupling a b = m.coupling b a := by
  unfold coupling
  cases position? m.units a with
  | none => cases position? m.units b <;> rfl
  | some i =>
      cases position? m.units b with
      | none => rfl
      | some j =>
          simp only [couplingAt, symmetric_get, eq_comm (a := i), Int64.add_comm (m.counts.get i j)]

/-- The coupling of different units is the share of the calls between them. -/
theorem couplingAt_of_total_ne {m : CouplingMatrix} {i j : Fin m.units.size} (hij : i ≠ j)
    (htotal : m.total.toInt ≠ 0) :
    m.couplingAt i j = .ratio (m.weight i.val j.val) m.total.toInt := by
  rw [couplingAt, if_neg hij, normalize, if_neg (mt m.total_eq_zero_iff.1 htotal), weight_coe]

section

variable {units : List CodeUnit} {calls : List Call} {m : CouplingMatrix}
  (h : build units calls = .ok m)

include h

theorem position?_unitAt (i : Fin m.units.size) : position? m.units (m.unitAt i) = some i := by
  have hlisted : (m.unitAt i).Listed m.units.toList :=
    ⟨m.unitAt i, by simp [unitAt], CodeUnit.same_iff.2 rfl⟩
  obtain ⟨j, hj⟩ := exists_position?_iff.2 hlisted
  rw [hj, eq_of_same_of_build h j i (same_of_position? hj)]

theorem coupling_unitAt (i j : Fin m.units.size) :
    m.coupling (m.unitAt i) (m.unitAt j) = m.couplingAt i j := by
  rw [coupling, position?_unitAt h, position?_unitAt h]

theorem uncoupled_of_build {a b : CodeUnit}
    (hab : a.same b = true ∨ ¬a.Listed units ∨ ¬b.Listed units) :
    m.coupling a b = .zero false := by
  rw [← toList_units_of_build h, ← position?_eq_none_iff, ← position?_eq_none_iff] at hab
  unfold coupling
  cases hi : position? m.units a with
  | none => rfl
  | some i =>
      cases hj : position? m.units b with
      | none => rfl
      | some j =>
          have hsame : a.same b = true := by simpa [hi, hj] using hab
          have hij : i = j := by
            refine eq_of_same_of_build h i j (CodeUnit.same_iff.2 ?_)
            have hia := CodeUnit.same_iff.1 (same_of_position? hi)
            have hjb := CodeUnit.same_iff.1 (same_of_position? hj)
            exact (hia.trans (CodeUnit.same_iff.1 hsame)).trans hjb.symm
          simp [couplingAt, hij]

variable (hsum : sumOf (calls.map (·.count)) < 2 ^ 63)

include hsum

theorem weight_nonneg_of_build (i j : Fin m.units.size) : 0 ≤ m.weight i.val j.val :=
  (bounded_of_build h hsum).weight_nonneg _ _

theorem weight_le_total_of_build (i j : Fin m.units.size) :
    m.weight i.val j.val ≤ m.total.toInt := by
  rw [weight_of_build h hsum, toInt_total_of_build h hsum]
  exact (tally_bounds_of_build h i j).2

theorem total_toInt_lt_of_build : m.total.toInt < 2 ^ 63 := by
  rw [toInt_total_of_build h hsum]
  exact hsum

/-- The calls of a pair in both directions are exact. -/
theorem bothWays_pairAt (p : Fin m.units.size × Fin m.units.size) :
    m.bothWays (m.pairAt p) = m.weight p.1.val p.2.val := by
  have hexact : ∀ i j : Fin m.units.size, (m.calls (m.unitAt i) (m.unitAt j)).toInt =
      Call.tally calls (m.unitAt i) (m.unitAt j) := by
    intro i j
    obtain ⟨hij, hle⟩ := tally_bounds_of_build h i j
    have hji := (tally_bounds_of_build h j i).1
    rw [calls_of_build h]
    exact Int64.toInt_ofInt_of_le (by omega) (by omega)
  rw [bothWays, pairAt, hexact, hexact, weight_of_build h hsum]

/-- The coupling of different units is positive exactly when there are calls between them. -/
theorem positive_couplingAt_iff {i j : Fin m.units.size} (hij : i ≠ j) :
    (Binary64.zero false).lt (m.couplingAt i j) = true ↔ 0 < m.weight i.val j.val := by
  have hweight := weight_nonneg_of_build h hsum i j
  have hle := weight_le_total_of_build h hsum i j
  have hfits := total_toInt_lt_of_build h hsum
  by_cases htotal : m.total.toInt = 0
  · have hzero : m.couplingAt i j = .zero false := by
      rw [couplingAt, if_neg hij, normalize, if_pos (m.total_eq_zero_iff.2 htotal)]
    rw [hzero, Binary64.lt_iff_of_isValue Binary64.isValue_zero Binary64.isValue_zero]
    exact iff_of_false (lt_irrefl _) (by omega)
  · rw [couplingAt_of_total_ne hij htotal]
    exact Binary64.zero_lt_ratio_iff hweight hle (by omega) hfits

/-- The pairs that are listed are those with calls between them. -/
theorem pairs_eq_of_build : m.pairs = m.calledPlaces.map m.pairAt := by
  by_cases htotal : m.total.toInt = 0
  · have hnone : m.calledPlaces = [] := by
      refine List.filter_eq_nil_iff.2 fun p _ hp => ?_
      have hle := weight_le_total_of_build h hsum p.1 p.2
      have hpos := of_decide_eq_true hp
      omega
    rw [hnone, pairs, if_pos (m.total_eq_zero_iff.2 htotal)]
    rfl
  · have hsame : ((positionPairs m.units.size).filter fun p => m.symmetric.get p.1 p.2 != 0) =
        m.calledPlaces := by
      refine List.filter_congr fun p _ => ?_
      have hweight := weight_nonneg_of_build h hsum p.1 p.2
      rw [Bool.eq_iff_iff, bne_iff_ne, decide_eq_true_eq, Ne, ← Int64.toInt_inj, ← weight_coe,
        Int64.toInt_zero]
      omega
    rw [pairs, if_neg (mt m.total_eq_zero_iff.1 htotal), ← hsame]
    refine List.map_congr_left fun p _ => ?_
    rw [pairAt, coupling_unitAt h]

/-- The calls of all pairs are all calls. -/
theorem sum_bothWays_of_build : (m.pairs.map m.bothWays).sum = m.total.toInt := by
  have hzero : ∀ p ∈ positionPairs m.units.size,
      decide (0 < m.weight p.1.val p.2.val) = false → m.weight p.1.val p.2.val = 0 := by
    intro p _ hp
    have hweight := weight_nonneg_of_build h hsum p.1 p.2
    rw [decide_eq_false_iff_not] at hp
    omega
  calc (m.pairs.map m.bothWays).sum
      = (m.calledPlaces.map fun p => m.weight p.1.val p.2.val).sum := by
        rw [pairs_eq_of_build h hsum, List.map_map]
        exact congrArg List.sum (List.map_congr_left fun p _ => bothWays_pairAt h hsum p)
    _ = ((positionPairs m.units.size).map fun p => m.weight p.1.val p.2.val).sum :=
        sum_map_filter_of_zero _ _ hzero
    _ = pairSum m.weight m.positions := by
        rw [sum_positionPairs fun i j : Fin m.units.size => m.weight i.val j.val, positions_eq,
          pairSum_map]
    _ = m.total.toInt := by
        rw [pairSum_weight_of_build h hsum, toInt_total_of_build h hsum]

end

/-- Shares of the same whole add up as what they are shares of. -/
theorem sum_map_div {α : Type} (f : α → Int) (t : ℚ) (xs : List α) :
    (xs.map fun x => (f x / t : ℚ)).sum = ((xs.map f).sum : Int) / t := by
  induction xs with
  | nil => simp
  | cons x xs ih =>
      rw [List.map_cons, List.map_cons, List.sum_cons, List.sum_cons, ih, Int.cast_add, add_div]

/-- **The pairs of accepted calls**: where the counts sum to less than `2 ^ 63`, the pairs that are
listed are those with a positive coupling, each once and in order, and they account for all
calls. -/
theorem lists_pairs {units : List CodeUnit} {calls : List Call} {m : CouplingMatrix}
    (h : build units calls = .ok m) (hsum : sumOf (calls.map (·.count)) < 2 ^ 63) :
    ListsPairs units calls m := by
  constructor
  case listed => exact toList_units_of_build h
  case places =>
    refine ⟨m.calledPlaces, (PlainLinkage.positionPairs_sorted _).filter _, fun i j => ?_,
      pairs_eq_of_build h hsum⟩
    rw [calledPlaces, List.mem_filter, PlainLinkage.mem_positionPairs, decide_eq_true_eq,
      coupling_unitAt h]
    exact and_congr_right fun hij => (positive_couplingAt_iff h hsum hij.ne).symm
  case symmetric => exact m.coupling_comm
  case uncoupled => exact fun a b hab => uncoupled_of_build h hab
  case total => exact toInt_total_of_build h hsum
  case accounted => exact sum_bothWays_of_build h hsum
  case share =>
    intro p hp
    rw [pairs_eq_of_build h hsum] at hp
    obtain ⟨⟨i, j⟩, hij, rfl⟩ := List.mem_map.1 hp
    obtain ⟨hplace, hcalls⟩ := List.mem_filter.1 hij
    have hne : i ≠ j := (PlainLinkage.mem_positionPairs.1 hplace).ne
    have hpos : 0 < m.weight i.val j.val := of_decide_eq_true hcalls
    have hle := weight_le_total_of_build h hsum i j
    rw [bothWays_pairAt h hsum, ← couplingAt_of_total_ne hne (by omega), ← coupling_unitAt h]
    rfl
  case shares =>
    intro hpos
    have hne : (m.total.toInt : ℚ) ≠ 0 := by exact_mod_cast hpos.ne'
    rw [sum_map_div, sum_bothWays_of_build h hsum, div_self hne]
  case report =>
    rintro a path threshold methodCalls rfl
    have hrows : (Report.ofAnalysis a path threshold methodCalls).rows.map (·.calls) =
        a.matrix.pairs.map a.matrix.bothWays := by
      rw [Report.ofAnalysis, Report.couplingRows, List.map_map]
      rfl
    rw [hrows, sum_bothWays_of_build h hsum]
    rfl

theorem lists_pairs_square : ∃ m, ofGraph .square = .ok m ∧
    ListsPairs CallGraph.square.units CallGraph.square.calls m ∧
    (m.pairs.map m.bothWays).sum = 6 ∧
    (m.pairs.map fun p => (m.bothWays p / m.total.toInt : ℚ)).sum = 1 := by
  obtain ⟨m, hm⟩ := exists_ofGraph_square
  have hlists := lists_pairs hm (by decide)
  have htotal : m.total.toInt = 6 := hlists.total
  exact ⟨m, hm, hlists, hlists.accounted.trans htotal, hlists.shares (by rw [htotal]; decide)⟩

end CouplingMatrix

end Cohesion
