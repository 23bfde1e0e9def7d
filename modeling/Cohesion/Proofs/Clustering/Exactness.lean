/-
Where the sums of words are exact.

No single count of an accepted call graph is too large for a word, but the sum of all counts may be.
As long as it is less than `2 ^ 63` the total is exact, couplings are the shares of all calls that
they should be, and every merge joins two clusters.  From there on sums wrap around: the total is
not the number of calls, a coupling may be greater than one, and a cluster may be joined with
itself.

Main definitions:
* `CouplingMatrix.Exact` — total, couplings and merges are as the exact numbers of calls want them.

Main results:
* `CouplingMatrix.exact_of_total_lt` — they are if all counts sum to less than `2 ^ 63`;
* `CouplingMatrix.exact_iff_total_lt` — and only then; in any case they are made from words of the
  exact numbers;
* `CouplingMatrix.not_exact_overloaded` — a call graph for which they are not.
-/
import Cohesion.Proofs.Clustering.TreeShape
import Cohesion.Proofs.Coupling.Totals
import Cohesion.Proofs.Number.Rounding

set_option autoImplicit false

namespace Cohesion

namespace CouplingMatrix

/-- Total, couplings and merges are as the exact numbers of calls want them. -/
structure Exact (m : CouplingMatrix) (g : CallGraph) : Prop where
  /-- The total is the number of all calls. -/
  total : m.total.toInt = g.total
  /-- The coupling of two units is their share of all calls. -/
  coupling : ∀ a ∈ g.units, ∀ b ∈ g.units, a.same b = false → g.total ≠ 0 →
    m.coupling a b = .ratio (g.traffic a b) g.total
  /-- Shares of all calls are between zero and one. -/
  share : ∀ a ∈ g.units, ∀ b ∈ g.units, a.same b = false → g.total ≠ 0 →
    0 ≤ (g.traffic a b / g.total : ℚ) ∧ (g.traffic a b / g.total : ℚ) ≤ 1
  /-- Couplings are between zero and one. -/
  range : ∀ a ∈ g.units, ∀ b ∈ g.units, a.same b = false → g.total ≠ 0 →
    (Binary64.zero false).le (m.coupling a b) = true ∧ (m.coupling a b).le (.ofInt 1) = true
  /-- No merge joins a cluster with itself. -/
  merges : ∀ c ∈ (Dendrogram.ofMatrix m).merges, ∀ l r, c.children = [l, r] → l ≠ r

theorem contains_of_mem {units : List CodeUnit} {calls : List Call} {m : CouplingMatrix}
    (h : build units calls = .ok m) {a : CodeUnit} (ha : a ∈ units) : m.contains a = true := by
  obtain ⟨i, rfl⟩ := exists_position h ha
  rw [contains, position?, Array.isSome_findFinIdx?, Array.any_eq_true]
  exact ⟨i, i.isLt, CodeUnit.same_iff.2 rfl⟩

theorem Bounded.children_ne {m : CouplingMatrix} (hm : m.Bounded) {c l r : Cluster}
    (hc : c ∈ (Dendrogram.ofMatrix m).merges) (hchildren : c.children = [l, r]) : l ≠ r := by
  obtain ⟨l', r', hchildren', -, -, -, -, -, -, hleast⟩ :=
    (Dendrogram.linked_of_mem_nodes hm (List.mem_append_right _ hc)).exists_children
      (Dendrogram.le_id_of_mem_merges hm hc)
  rw [hchildren] at hchildren'
  cases hchildren'
  rintro rfl
  exact lt_irrefl _ hleast

section

variable {units : List CodeUnit} {history : List Call} {m : CouplingMatrix}
  (h : ofGraph (.ofHistory units history) = .ok m)

include h

/-- The total is the word of the number of all calls. -/
theorem total_of_ofHistory : m.total = Int64.ofInt (CallGraph.ofHistory units history).total :=
  total_of_build h

/-- The calls between two units are some of all calls. -/
theorem traffic_bounds {a b : CodeUnit} (ha : a ∈ units) (hb : b ∈ units)
    (hab : a.same b = false) :
    0 ≤ (CallGraph.ofHistory units history).traffic a b ∧
      (CallGraph.ofHistory units history).traffic a b ≤
        (CallGraph.ofHistory units history).total := by
  rw [ofGraph, CallGraph.units_ofHistory] at h
  obtain ⟨i, rfl⟩ := exists_position h ha
  obtain ⟨j, rfl⟩ := exists_position h hb
  obtain ⟨hij, hle⟩ := tally_bounds_of_build h i j
  obtain ⟨hji, -⟩ := tally_bounds_of_build h j i
  rw [← CallGraph.tally_calls_add hab]
  exact ⟨add_nonneg hij hji, hle⟩

/-- A coupling is made from the words of the calls between two units and of all calls. -/
theorem coupling_of_ofHistory {a b : CodeUnit} (ha : a ∈ units) (hb : b ∈ units)
    (hab : a.same b = false) (htotal : m.total ≠ 0) :
    m.coupling a b = .ratio (Int64.ofInt ((CallGraph.ofHistory units history).traffic a b)).toInt
      m.total.toInt := by
  rw [ofGraph, CallGraph.units_ofHistory] at h
  rw [coupling_of_build h (contains_of_mem h ha) (contains_of_mem h hb) hab htotal,
    CallGraph.tally_calls_add hab]

/-- Numbers of calls that sum to less than `2 ^ 63` are exact. -/
theorem exact_of_total_lt (hlt : (CallGraph.ofHistory units history).total < 2 ^ 63) :
    m.Exact (.ofHistory units history) := by
  have htotal : m.total.toInt = (CallGraph.ofHistory units history).total :=
    toInt_total_of_build h hlt
  have hcoupling : ∀ a ∈ units, ∀ b ∈ units, a.same b = false →
      (CallGraph.ofHistory units history).total ≠ 0 →
      m.coupling a b = .ratio ((CallGraph.ofHistory units history).traffic a b)
        (CallGraph.ofHistory units history).total := by
    intro a ha b hb hab hne
    obtain ⟨hpos, hle⟩ := traffic_bounds h ha hb hab
    have hne' : m.total ≠ 0 := by
      intro hzero
      rw [hzero] at htotal
      exact hne htotal.symm
    -- the calls of a pair are some of all calls, so their word is exact as well
    rw [coupling_of_ofHistory h ha hb hab hne', htotal,
      Int64.toInt_ofInt_of_le (by omega) (by omega)]
  constructor
  case total => exact htotal
  case coupling => rwa [CallGraph.units_ofHistory]
  case share =>
    rw [CallGraph.units_ofHistory]
    intro a ha b hb hab hne
    obtain ⟨hpos, hle⟩ := traffic_bounds h ha hb hab
    have hpos' : (0 : ℚ) ≤ (CallGraph.ofHistory units history).traffic a b := by exact_mod_cast hpos
    have hle' : ((CallGraph.ofHistory units history).traffic a b : ℚ) ≤
        (CallGraph.ofHistory units history).total := by exact_mod_cast hle
    exact ⟨div_nonneg hpos' (hpos'.trans hle'), div_le_one_of_le₀ hle' (hpos'.trans hle')⟩
  case range =>
    rw [CallGraph.units_ofHistory]
    intro a ha b hb hab hne
    obtain ⟨hpos, hle⟩ := traffic_bounds h ha hb hab
    rw [hcoupling a ha b hb hab hne]
    exact Binary64.ratio_mem_unit hpos hle (by omega)
  case merges => exact fun c hc l r hchildren => (bounded_of_build h hlt).children_ne hc hchildren

/-- **Numbers of calls are exact just below `2 ^ 63`**: for an accepted call graph, the total is the
number of all calls, couplings are shares of all calls between zero and one, and merges join
different clusters, if and only if all counts sum to less than `2 ^ 63`.  In any case the total
and the couplings are made from the words of the exact numbers. -/
theorem exact_iff_total_lt :
    (m.Exact (.ofHistory units history) ↔ (CallGraph.ofHistory units history).total < 2 ^ 63) ∧
    m.total = Int64.ofInt (CallGraph.ofHistory units history).total ∧
    ∀ a ∈ units, ∀ b ∈ units, a.same b = false → m.total ≠ 0 →
      m.coupling a b =
        .ratio (Int64.ofInt ((CallGraph.ofHistory units history).traffic a b)).toInt
          m.total.toInt := by
  refine ⟨⟨fun hexact => ?_, exact_of_total_lt h⟩, total_of_ofHistory h, ?_⟩
  · -- the total is a word, so it is less than `2 ^ 63` when it is exact
    rw [← hexact.total]
    exact Int64.toInt_lt _
  · exact fun a ha b hb hab htotal => coupling_of_ofHistory h ha hb hab htotal

end

/-- The greatest number of calls that is exact. -/
theorem exact_limit : ∃ m : CouplingMatrix,
    ofGraph (.ofHistory [.named "A", .named "B"] [⟨.named "A", .named "B", 2 ^ 63 - 1⟩]) = .ok m ∧
      m.Exact (.ofHistory [.named "A", .named "B"] [⟨.named "A", .named "B", 2 ^ 63 - 1⟩]) := by
  obtain ⟨m, hm⟩ : ∃ m : CouplingMatrix,
      ofGraph (.ofHistory [.named "A", .named "B"] [⟨.named "A", .named "B", 2 ^ 63 - 1⟩]) =
        .ok m := ⟨_, by with_unfolding_all rfl⟩
  exact ⟨m, hm, (exact_iff_total_lt hm).1.2 (by decide)⟩

end CouplingMatrix

/-- Three units, two of which have `2 ^ 63` calls between them. -/
def CallGraph.overloaded : CallGraph :=
  .ofHistory [.named "A", .named "B", .named "C"]
    [⟨.named "A", .named "B", 2 ^ 62⟩, ⟨.named "B", .named "A", 2 ^ 62⟩,
      ⟨.named "A", .named "C", 2 ^ 62⟩]

/-- The overloaded call graph is accepted.  Its total is negative, a coupling is two instead of two
thirds, and the last cluster is made of one child twice. -/
theorem CouplingMatrix.not_exact_overloaded : ∃ m : CouplingMatrix,
    ofGraph .overloaded = .ok m ∧ ¬m.Exact .overloaded ∧
      CallGraph.overloaded.total = 3 * 2 ^ 62 ∧ m.total.toInt = -2 ^ 62 ∧
      m.coupling (.named "A") (.named "B") = .ofInt 2 ∧
      ∃ c ∈ (Dendrogram.ofMatrix m).merges, ∃ child, c.children = [child, child] := by
  obtain ⟨m, hm, htotal, hcoupling, hmerge⟩ : ∃ m : CouplingMatrix, ofGraph .overloaded = .ok m ∧
      m.total.toInt = -2 ^ 62 ∧ m.coupling (.named "A") (.named "B") = .ofInt 2 ∧
      ∃ c ∈ (Dendrogram.ofMatrix m).merges, ∃ child, c.children = [child, child] :=
    ⟨_, by with_unfolding_all rfl, by decide +kernel, by decide +kernel, _,
      List.mem_of_getElem? (i := 1) (by rfl), _, rfl⟩
  have hsum : CallGraph.overloaded.total = 3 * 2 ^ 62 := by decide
  refine ⟨m, hm, fun hexact => ?_, hsum, htotal, hcoupling, hmerge⟩
  obtain ⟨c, hc, child, hchildren⟩ := hmerge
  exact hexact.merges c hc child child hchildren rfl

end Cohesion
