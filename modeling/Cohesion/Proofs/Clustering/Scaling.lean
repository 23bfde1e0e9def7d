/-
Counts with a common factor.

Multiplying all counts by the same factor changes no coupling, and no comparison of two numbers of
calls.  So the analysis is the same, apart from the numbers of calls: every quotient has its factor
in the numerator and in the denominator and is rounded only once.

Main definitions:
* `CallGraph.scale` — the call graph with all counts multiplied;
* `CouplingMatrix.SameShares` — two matrices differ in the numbers of calls only.

Main results:
* `Call.tally_scale` — tallies are multiplied;
* `CouplingMatrix.exists_ofGraph_scale` — the scaled graph is accepted and extends the graph;
* `CouplingMatrix.sameShares_scale` — **a common factor does not matter**.
-/
import Cohesion.Proofs.Clustering.Extension

set_option autoImplicit false

namespace Cohesion

/-! ### Scaled call graphs -/

/-- The call with its count multiplied. -/
def Call.scale (k : Int) (c : Call) : Call := { c with count := k * c.count }

/-- The call graph with all counts multiplied. -/
def CallGraph.scale (k : Int) (g : CallGraph) : CallGraph :=
  { g with calls := g.calls.map (Call.scale k) }

theorem Call.tally_scale (k : Int) (calls : List Call) (a b : CodeUnit) :
    tally (calls.map (scale k)) a b = k * tally calls a b := by
  have hjoins : ∀ c : Call, (c.scale k).joins a b = c.joins a b := fun _ => rfl
  induction calls with
  | nil => simp
  | cons c calls ih =>
      rw [List.map_cons, tally_cons, tally_cons, hjoins, ih, mul_add, mul_ite, mul_zero]
      rfl

theorem Call.sumOf_scale (k : Int) (calls : List Call) :
    sumOf ((calls.map (scale k)).map (·.count)) = k * sumOf (calls.map (·.count)) := by
  rw [sumOf_eq_sum, sumOf_eq_sum, List.map_map, ← List.sum_map_mul_left]
  rfl

namespace CouplingMatrix

/-- Two matrices differ in the numbers of calls only: all shares of calls are the same, and what
depends on them. -/
structure SameShares (m m' : CouplingMatrix) : Prop where
  /-- The coupling of any two units, listed or not. -/
  coupling : ∀ a b, m.coupling a b = m'.coupling a b
  /-- The pairs of units with calls between them. -/
  pairs : m.pairs = m'.pairs
  /-- All clusters, with the couplings at which they were joined. -/
  dendrogram : Dendrogram.ofMatrix m = Dendrogram.ofMatrix m'
  /-- The average internal coupling of each cluster. -/
  average : ∀ c ∈ (Dendrogram.ofMatrix m).nodes,
    m.averageInternalCoupling c = m'.averageInternalCoupling c
  /-- The modules, whatever the threshold is. -/
  cut : ∀ t, (Dendrogram.ofMatrix m).cut m t = (Dendrogram.ofMatrix m').cut m' t

/-! ### Extensions by no unit -/

namespace Extends

variable {m m' : CouplingMatrix} {k : Int} (h : m.Extends m' k)

include h

theorem symmetric_eq_zero_iff {i j : Fin m.units.size} :
    m'.symmetric.get (Fin.castLE h.size_le i) (Fin.castLE h.size_le j) = 0 ↔
      m.symmetric.get i j = 0 := by
  have hpos := h.pos
  have hweight : m'.weight i.val j.val = k * m.weight i.val j.val := h.weight _ _
  have hcast : m'.weight i.val j.val =
      (m'.symmetric.get (Fin.castLE h.size_le i) (Fin.castLE h.size_le j)).toInt :=
    m'.weight_coe (Fin.castLE h.size_le i) (Fin.castLE h.size_le j)
  rw [hcast, weight_coe] at hweight
  rw [← Int64.toInt_inj, ← Int64.toInt_inj, hweight, Int64.toInt_zero, mul_eq_zero]
  omega

theorem couplingAt_castLE (i j : Fin m.units.size) :
    m'.couplingAt (Fin.castLE h.size_le i) (Fin.castLE h.size_le j) = m.couplingAt i j := by
  have hcast : (m'.symmetric.get (Fin.castLE h.size_le i) (Fin.castLE h.size_le j)).toInt =
      k * (m.symmetric.get i j).toInt := by
    rw [← weight_coe, ← weight_coe]
    exact h.weight _ _
  unfold couplingAt
  rw [hcast, h.normalize_mul]
  exact if_congr (Fin.castLE_injective h.size_le).eq_iff rfl rfl

theorem total_beq : (m'.total == 0) = (m.total == 0) := by
  have hpos := h.pos
  rw [Bool.eq_iff_iff, total_eq_zero_iff, total_eq_zero_iff, h.total, mul_eq_zero]
  omega

variable (hunits : m'.units = m.units)

include hunits

theorem coupling_eq (a b : CodeUnit) : m.coupling a b = m'.coupling a b := by
  obtain ⟨units, counts, symmetric, total, _, _⟩ := m
  obtain ⟨units', counts', symmetric', total', _, _⟩ := m'
  obtain rfl : units' = units := hunits
  rw [coupling, coupling]
  cases position? units' a with
  | none => rfl
  | some i =>
      cases position? units' b with
      | none => rfl
      | some j => exact (h.couplingAt_castLE i j).symm

theorem pairs_eq : m.pairs = m'.pairs := by
  have htotal := h.total_beq
  obtain ⟨units, counts, symmetric, total, _, _⟩ := m
  obtain ⟨units', counts', symmetric', total', _, _⟩ := m'
  obtain rfl : units' = units := hunits
  have hne : ∀ i j, (symmetric'.get i j != 0) = (symmetric.get i j != 0) := by
    intro i j
    have hzero : symmetric'.get i j = 0 ↔ symmetric.get i j = 0 := h.symmetric_eq_zero_iff
    rw [Bool.eq_iff_iff, bne_iff_ne, bne_iff_ne]
    exact hzero.not
  unfold pairs
  rw [htotal]
  split
  · rfl
  · simp only [hne]
    refine List.map_congr_left fun p _ => ?_
    exact congrArg (CoupledPair.mk _ _) (h.couplingAt_castLE p.1 p.2).symm

theorem leaves_eq : (Dendrogram.ofMatrix m).leaves = (Dendrogram.ofMatrix m').leaves := by
  have hleaf := h.leafAt_castLE
  cases m
  cases m'
  subst hunits
  exact List.map_congr_left fun i _ => (hleaf i).symm

variable (hm : m.Bounded) (hm' : m'.Bounded)

include hm hm'

/-- Without more units the merges are the same, identifiers included. -/
theorem merges_eq : (Dendrogram.ofMatrix m).merges = (Dendrogram.ofMatrix m').merges := by
  have hsize : m'.units.size = m.units.size := by rw [hunits]
  rcases Nat.eq_zero_or_pos m.units.size with hn | hn
  · rw [Dendrogram.merges_eq_nil (by omega), Dendrogram.merges_eq_nil (by omega)]
  · obtain ⟨s, s', -, hlen, hsteps, -, -⟩ := Dendrogram.exists_embedding h hm hm' hn
    have hself : Cluster.renumber (Cluster.shiftId m.units.size m'.units.size) = fun c => c := by
      funext c
      rw [hsize, Cluster.shiftId_self, Cluster.renumber_self]
    rw [hself, List.map_id'] at hsteps
    exact (Dendrogram.merges_eq_of_steps hsteps (by omega)).symm

theorem dendrogram_eq : Dendrogram.ofMatrix m = Dendrogram.ofMatrix m' := by
  exact congrArg₂ Dendrogram.mk (h.leaves_eq hunits) (h.merges_eq hunits hm hm')

theorem cut_eq (t : Binary64) :
    (Dendrogram.ofMatrix m).cut m t = (Dendrogram.ofMatrix m').cut m' t := by
  have hsame := h.dendrogram_eq hunits hm hm'
  have hmodules : ((Dendrogram.ofMatrix m).cut m t).modules =
      ((Dendrogram.ofMatrix m).cut m' t).modules := by
    cases hroot : (Dendrogram.ofMatrix m).root? with
    | none =>
        rw [Dendrogram.cut_modules_of_no_root hroot, Dendrogram.cut_modules_of_no_root hroot]
    | some root =>
        have hlinked := Dendrogram.linked_of_root? hm hroot
        have hchosen := h.chosen_renumber hm hm' hlinked (fun i => i) t
        simp only [Cluster.renumber_self, List.map_id'] at hchosen
        rw [Dendrogram.cut_modules hroot, Dendrogram.cut_modules hroot, hchosen]
  rw [← hsame]
  exact congrArg (Cut.mk t (Dendrogram.ofMatrix m).unitCount) hmodules

/-- A factor alone leaves all shares as they are. -/
theorem sameShares : SameShares m m' where
  coupling := h.coupling_eq hunits
  pairs := h.pairs_eq hunits
  dendrogram := h.dendrogram_eq hunits hm hm'
  average _ hc := by
    have havg := h.averageInternalCoupling_renumber hm hm' (Dendrogram.linked_of_mem_nodes hm hc)
      fun i => i
    rw [Cluster.renumber_self] at havg
    exact havg.symm
  cut := h.cut_eq hunits hm hm'

end Extends

/-! ### A common factor -/

section

variable {g : CallGraph} {m : CouplingMatrix} (h : ofGraph g = .ok m) {k : Int} (hk : 1 ≤ k)
  (hsum : k * g.total < 2 ^ 63)

include h hk hsum

/-- The scaled graph is accepted, and its matrix extends that of the graph by no unit. -/
theorem exists_ofGraph_scale : ∃ m', ofGraph (g.scale k) = .ok m' ∧ m'.units = m.units ∧
    m'.Bounded ∧ m.Extends m' k := by
  have hscaled : sumOf ((g.scale k).calls.map (·.count)) = k * g.total :=
    Call.sumOf_scale k g.calls
  have haccepted : ∀ c ∈ (g.scale k).calls, c.Acceptable g.units := by
    intro c hc
    obtain ⟨d, hd, rfl⟩ := List.mem_map.1 hc
    have hdok := acceptable_of_build h hd
    have hle : d.count ≤ g.total := count_le_of_build h hd
    constructor
    case caller => exact hdok.caller
    case callee => exact hdok.callee
    case nonneg => exact mul_nonneg (by omega) hdok.nonneg
    case self =>
      intro hself
      show k * d.count = 0
      rw [hdok.self hself, mul_zero]
    case fits => exact lt_of_le_of_lt (mul_le_mul_of_nonneg_left hle (by omega)) hsum
  obtain ⟨m', hm'⟩ := exists_build_iff.2 ⟨pairwise_of_build h, haccepted⟩
  have hunits : m'.units = m.units := by
    rw [(exists_of_build_eq_ok h).2.1, (exists_of_build_eq_ok hm').2.1]
  refine ⟨m', hm', hunits, bounded_of_build hm' (hscaled ▸ hsum), ?_⟩
  have happend : build (g.units ++ []) (g.scale k).calls = .ok m' := by
    rwa [List.append_nil]
  exact extends_of_build h happend (by omega) (Call.tally_scale k g.calls) hscaled (hscaled ▸ hsum)

/-- **A common factor does not matter**: multiply every count of an accepted call graph by a factor
`k` of at least one, so that the counts still sum to less than `2 ^ 63`.  The call graph is accepted
then, and has the same couplings, pairs, dendrogram and average internal couplings, and at every
threshold the same modules. -/
theorem sameShares_scale : ∃ m', ofGraph (g.scale k) = .ok m' ∧ SameShares m m' := by
  obtain ⟨m', hm', hunits, hbounded, hextends⟩ := exists_ofGraph_scale h hk hsum
  have hpos : 0 ≤ g.total := sum_nonneg_of_build h
  have htotal : g.total < 2 ^ 63 := lt_of_le_of_lt (le_mul_of_one_le_left hpos hk) hsum
  exact ⟨m', hm', hextends.sameShares hunits (bounded_of_build h htotal) hbounded⟩

end

/-- Three times as many calls. -/
theorem sameShares_scale_square : ∃ m m' : CouplingMatrix,
    ofGraph .square = .ok m ∧ ofGraph (CallGraph.square.scale 3) = .ok m' ∧
      SameShares m m' := by
  obtain ⟨m, hm⟩ := exists_ofGraph_square
  obtain ⟨m', hm', hsame⟩ := sameShares_scale hm (k := 3) (by decide) (by decide)
  exact ⟨m, m', hm, hm', hsame⟩

end CouplingMatrix

end Cohesion
