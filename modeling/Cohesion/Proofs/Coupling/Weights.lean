/-
The calls between positions as integers.

A coupling matrix holds words of 64 bits.  The sum of words is the word of the exact sum; where
the exact sum of all calls fits into a word, nothing wraps around and a sum of words is exact.

Main definitions:
* `CouplingMatrix.weight` — the calls in both directions between two positions, as an integer;
* `CouplingMatrix.members` — all units with their positions;
* `CouplingMatrix.Bounded` — all calls between different units sum to less than `2 ^ 63`.

Main results:
* `Table.sumWords_eq_ofInt` — a sum of words is the word of the exact sum;
* `CouplingMatrix.crossCalls_eq_ofInt`, `CouplingMatrix.internalCalls_eq_ofInt` — the calls between
  two lists of positions, and inside one, are the words of the exact sums;
* `CouplingMatrix.Bounded.toInt_crossCalls`, `CouplingMatrix.Bounded.toInt_internalCalls` — in a
  bounded matrix they are exact for lists of different positions.
-/
import Cohesion.Coupling.Matrix
import Cohesion.Clustering.Cluster
import Cohesion.Proofs.Coupling.PairSum

set_option autoImplicit false

namespace Cohesion

/-! ### Sums of words -/

namespace Table

theorem foldl_add_eq_ofInt (ws : List Int64) (a : Int64) :
    ws.foldl (· + ·) a = Int64.ofInt (a.toInt + (ws.map Int64.toInt).sum) := by
  induction ws generalizing a with
  | nil => simp
  | cons v ws ih =>
      rw [List.foldl_cons, ih, List.map_cons, List.sum_cons, ← add_assoc, Int64.ofInt_add,
        Int64.ofInt_add, Int64.ofInt_add, Int64.ofInt_toInt, Int64.ofInt_toInt, Int64.ofInt_toInt]

/-- A sum of words is the word of the exact sum. -/
theorem sumWords_eq_ofInt (ws : List Int64) :
    sumWords ws = Int64.ofInt (ws.map Int64.toInt).sum := by
  rw [sumWords, foldl_add_eq_ofInt]
  simp

/-- Of the summands of a sum of words only their words count. -/
theorem sumWords_map_ofInt {α : Type} (f : α → Int) (xs : List α) :
    sumWords (xs.map fun a => Int64.ofInt (f a)) = Int64.ofInt (xs.map f).sum := by
  induction xs with
  | nil => rfl
  | cons a xs ih =>
      rw [sumWords_eq_ofInt] at ih ⊢
      rw [List.map_cons, List.map_cons, List.sum_cons, Int64.ofInt_add, ih, Int64.ofInt_toInt,
        List.map_cons, List.sum_cons, Int64.ofInt_add]

end Table

namespace CouplingMatrix

/-! ### Weights -/

/-- The calls in both directions between two positions, as an integer. -/
def weight (m : CouplingMatrix) (i j : Int) : Int := (m.symmetricAt i j).toInt

theorem symmetricAt_coe (m : CouplingMatrix) (i j : Fin m.units.size) :
    m.symmetricAt i.val j.val = m.symmetric.get i j := by
  have h : (0 : Int) ≤ (i.val : Int) ∧ ((i.val : Int)).toNat < m.units.size ∧
      (0 : Int) ≤ (j.val : Int) ∧ ((j.val : Int)).toNat < m.units.size := by
    have hi := i.isLt
    have hj := j.isLt
    omega
  rw [symmetricAt, dif_pos h]
  rfl

theorem weight_coe (m : CouplingMatrix) (i j : Fin m.units.size) :
    m.weight i.val j.val = (m.symmetric.get i j).toInt := by
  rw [weight, symmetricAt_coe]

theorem symmetric_get (m : CouplingMatrix) (i j : Fin m.units.size) :
    m.symmetric.get i j = m.counts.get i j + m.counts.get j i := by
  rw [m.symmetric_eq, Table.get_addTranspose]

/-- Weights are symmetric. -/
theorem weight_comm (m : CouplingMatrix) (i j : Int) : m.weight i j = m.weight j i := by
  unfold weight symmetricAt
  by_cases h : 0 ≤ i ∧ i.toNat < m.units.size ∧ 0 ≤ j ∧ j.toNat < m.units.size
  · have h' : 0 ≤ j ∧ j.toNat < m.units.size ∧ 0 ≤ i ∧ i.toNat < m.units.size :=
      ⟨h.2.2.1, h.2.2.2, h.1, h.2.1⟩
    rw [dif_pos h, dif_pos h', symmetric_get, symmetric_get, Int64.add_comm]
  · have h' : ¬(0 ≤ j ∧ j.toNat < m.units.size ∧ 0 ≤ i ∧ i.toNat < m.units.size) :=
      fun h' => h ⟨h'.2.2.1, h'.2.2.2, h'.1, h'.2.1⟩
    rw [dif_neg h, dif_neg h']

theorem callsWith_eq_ofInt (m : CouplingMatrix) (i : Int) (xs : List Int) :
    m.callsWith i xs = Int64.ofInt (xs.map (m.weight i)).sum := by
  rw [callsWith, Table.sumWords_eq_ofInt, List.map_map]
  rfl

/-- The calls between two lists of positions are the word of the exact cross sum. -/
theorem crossCalls_eq_ofInt (m : CouplingMatrix) (xs ys : List Int) :
    m.crossCalls xs ys = Int64.ofInt (crossSum m.weight xs ys) := by
  simp only [crossCalls, callsWith_eq_ofInt, Table.sumWords_map_ofInt, crossSum]

/-- The calls inside a list of positions are the word of the exact sum over its pairs. -/
theorem internalCalls_eq_ofInt (m : CouplingMatrix) (xs : List Int) :
    m.internalCalls xs = Int64.ofInt (pairSum m.weight xs) := by
  induction xs with
  | nil => rfl
  | cons i xs ih => rw [internalCalls, callsWith_eq_ofInt, ih, pairSum, Int64.ofInt_add]

/-! ### Positions -/

/-- All units with their positions. -/
def members (m : CouplingMatrix) : List Member :=
  (List.finRange m.units.size).map fun i => ⟨i.val, m.unitAt i⟩

/-- All positions. -/
def positions (m : CouplingMatrix) : List Int := m.members.map (·.index)

theorem mem_members (m : CouplingMatrix) (i : Fin m.units.size) :
    ⟨i.val, m.unitAt i⟩ ∈ m.members :=
  List.mem_map_of_mem (List.mem_finRange i)

theorem mem_positions (m : CouplingMatrix) (i : Fin m.units.size) : (i.val : Int) ∈ m.positions :=
  List.mem_map_of_mem (m.mem_members i)

theorem positions_eq (m : CouplingMatrix) :
    m.positions = (List.finRange m.units.size).map fun i => (i.val : Int) := by
  rw [positions, members, List.map_map]
  rfl

/-- The members stand in strictly ascending order. -/
theorem members_sorted (m : CouplingMatrix) :
    m.members.Pairwise fun a b => a.index < b.index := by
  rw [members, List.pairwise_map]
  exact (List.sortedLT_finRange _).pairwise.imp fun h => Int.ofNat_lt.2 (Fin.lt_def.1 h)

theorem positions_nodup (m : CouplingMatrix) : m.positions.Nodup :=
  List.pairwise_map.2 (m.members_sorted.imp ne_of_lt)

theorem members_units (m : CouplingMatrix) : m.members.map (·.unit) = m.units.toList := by
  rw [members, List.map_map]
  refine List.ext_getElem (by simp) fun i h₁ h₂ => ?_
  simp [unitAt]

/-! ### Matrices whose sums fit -/

/-- All calls between different units sum to less than `2 ^ 63`. -/
structure Bounded (m : CouplingMatrix) : Prop where
  /-- No two positions have a negative number of calls between them. -/
  weight_nonneg : ∀ i j, 0 ≤ m.weight i j
  /-- The calls of all pairs of positions sum to less than `2 ^ 63`. -/
  pairSum_lt : pairSum m.weight m.positions < 2 ^ 63

namespace Bounded

variable {m : CouplingMatrix} (hm : m.Bounded)

include hm

theorem crossSum_lt {xs ys : List Int} (h : (xs ++ ys).Subperm m.positions) :
    crossSum m.weight xs ys < 2 ^ 63 :=
  lt_of_le_of_lt (crossSum_le_pairSum m.weight_comm hm.weight_nonneg h) hm.pairSum_lt

/-- The cross sum of disjoint lists of positions fits into a word. -/
theorem toInt_crossSum {xs ys : List Int} (h : (xs ++ ys).Subperm m.positions) :
    (Int64.ofInt (crossSum m.weight xs ys)).toInt = crossSum m.weight xs ys := by
  have hpos := crossSum_nonneg hm.weight_nonneg xs ys
  exact Int64.toInt_ofInt_of_le (by omega) (hm.crossSum_lt h)

/-- The sum over the pairs of different positions fits into a word. -/
theorem toInt_internalCalls {xs : List Int} (h : xs.Subperm m.positions) :
    (m.internalCalls xs).toInt = pairSum m.weight xs := by
  have hpos := pairSum_nonneg hm.weight_nonneg xs
  have hle := pairSum_le_of_subperm m.weight_comm hm.weight_nonneg h
  have hlt := hm.pairSum_lt
  rw [internalCalls_eq_ofInt]
  exact Int64.toInt_ofInt_of_le (by omega) (by omega)

/-- The calls between disjoint lists of positions are exact. -/
theorem toInt_crossCalls {xs ys : List Int} (h : (xs ++ ys).Subperm m.positions) :
    (m.crossCalls xs ys).toInt = crossSum m.weight xs ys := by
  rw [crossCalls_eq_ofInt, hm.toInt_crossSum h]

end Bounded

end CouplingMatrix

end Cohesion
