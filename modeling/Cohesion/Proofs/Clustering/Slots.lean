/-
The slots before each join.

Whatever the matrix is, also where its sums wrap around, a join takes two slots in order, or the
first slot twice: the filler of the grid stands at its first place before it stands anywhere else.
A slot that is joined with itself goes out of use together with its doubled cluster, so the state
between two joins stays sound, and each join takes exactly one slot out of use.

Main definitions:
* `Linkage.BeforeJoin` — what holds before the join with a number.

Main results:
* `bestPair_eq_some_of_ascending` — the best pair of ascending slots is in order;
* `Linkage.Sound.exists_join`, `Linkage.Sound.exists_joins` — one join, and any number of joins;
* `Linkage.exists_beforeJoin` — **the state before each join of the dendrogram of any matrix**.
-/
import Cohesion.Proofs.Clustering.Linkage
import Cohesion.Proofs.Coupling.Build

set_option autoImplicit false

namespace Cohesion

/-- The best pair of ascending slots is in order: the filler never wins against the first place of
the grid, which holds it as well. -/
theorem bestPair_eq_some_of_ascending {n : Nat} (scores : Table n) {slots : List (Fin n)}
    (h : slots ≠ []) (hslots : slots.Pairwise (· < ·)) :
    ∃ best, bestPair scores slots = some best ∧ best.first ∈ slots ∧ best.second ∈ slots ∧
      best.first ≤ best.second := by
  have hmono : StrictMono slots.get := hslots.sortedLT.strictMono_get
  obtain ⟨i, j, hbest, -, hfirst⟩ := bestPair_eq_some scores slots h
  refine ⟨_, hbest, List.getElem_mem _, List.getElem_mem _, hmono.monotone ?_⟩
  -- a place below the diagonal would hold the filler, and the first place holds it before
  by_contra hge
  have hfiller : candidate scores slots i j = -1 := if_neg fun hlt => hge hlt.le
  obtain ⟨hi, -⟩ := eq_zero_of_candidate_le scores slots (hfiller ▸ Int64.le_refl _) hfirst
  exact hge (Fin.le_def.2 (hi ▸ Nat.zero_le _))

namespace Linkage

variable {m : CouplingMatrix}

namespace Sound

variable {s : Linkage m.units.size} (hs : s.Sound m)

include hs

/-- While a slot is in use there is a join; it keeps the state sound and takes one slot out of
use. -/
theorem exists_join (id : Int) (hslots : s.slots ≠ []) :
    ∃ c s', s.step m id = some (c, s') ∧ s'.Sound m ∧
      s'.slots.length + 1 = s.slots.length := by
  obtain ⟨best, hbest, hx, hy, hle⟩ :=
    bestPair_eq_some_of_ascending s.scores hslots hs.ascending
  refine ⟨s.merged m id best, s.after best (s.merged m id best), ?_, hs.after best id hx hy hle, ?_⟩
  · rw [step, hbest, Option.map_some]
  · rw [slots_after, List.length_erase_of_mem hy]
    have hpos := List.length_pos_of_mem hy
    omega

/-- As many joins as there are slots in use can be made; they keep the state sound and take one slot
each out of use. -/
theorem exists_joins (id : Int) {joins : Nat} (hjoins : joins ≤ s.slots.length) :
    ∃ made s', Steps m id s made s' ∧ made.length = joins ∧ s'.Sound m ∧
      s'.slots.length + joins = s.slots.length := by
  induction joins generalizing s id with
  | zero => exact ⟨[], s, .nil id s, rfl, hs, rfl⟩
  | succ joins ih =>
      have hne : s.slots ≠ [] := List.length_pos_iff.1 (by omega)
      obtain ⟨c, s', hstep, hs', hlen⟩ := hs.exists_join id hne
      obtain ⟨made, s'', hsteps, hmade, hs'', hlen'⟩ := ih hs' (id + 1) (by omega)
      refine ⟨c :: made, s'', .cons hstep hsteps, by rw [List.length_cons, hmade], hs'', ?_⟩
      omega

end Sound

/-- What holds before the join with a number. -/
structure BeforeJoin (m : CouplingMatrix) (number : Nat) (s : Linkage m.units.size) : Prop where
  /-- The slots in use ascend. -/
  ascending : s.slots.Pairwise (· < ·)
  /-- The clusters in use hold positions of the matrix. -/
  inside : ∀ x ∈ s.slots, (s.node x).indices ⊆ m.positions
  /-- Different clusters in use have no position in common. -/
  disjoint : ∀ x ∈ s.slots, ∀ y ∈ s.slots, x ≠ y →
    (s.node x).indices.Disjoint (s.node y).indices
  /-- Each cluster in use lives in the slot of its smallest position. -/
  least : ∀ x ∈ s.slots, (s.node x).indices.min? = some (x.val : Int)
  /-- The table holds the calls in both directions between two clusters in use, summed as words. -/
  scores : ∀ x ∈ s.slots, ∀ y ∈ s.slots, x ≠ y →
    s.scores.get x y = m.crossCalls (s.node x).indices (s.node y).indices
  /-- The table is symmetric for the slots in use. -/
  symmetric : ∀ x ∈ s.slots, ∀ y ∈ s.slots, x ≠ y → s.scores.get x y = s.scores.get y x
  /-- Each join before has taken one slot out of use. -/
  count : s.slots.length = m.units.size - number + 1

/-- A sound state with as many slots in use as are left before a join. -/
theorem Sound.beforeJoin {s : Linkage m.units.size} (hs : s.Sound m) {number : Nat}
    (hcount : s.slots.length = m.units.size - number + 1) : BeforeJoin m number s where
  ascending := hs.ascending
  inside x hx := by
    have hnode : (s.node x).members ⊆ m.members := fun c hc =>
      hs.members.subset (List.mem_flatMap.2 ⟨x, hx, hc⟩)
    exact List.map_subset _ hnode
  disjoint x hx y hy hxy := hs.disjoint hx hy hxy
  least := hs.least
  scores x hx y hy hxy := by
    rw [hs.scores x hx y hy hxy, CouplingMatrix.crossCalls_eq_ofInt, calls]
  symmetric x hx y hy hxy := by
    rw [hs.scores x hx y hy hxy, hs.scores y hy x hx (Ne.symm hxy), calls_comm]
  count := hcount

/-- **The state before each join**: of any matrix, also one whose sums wrap around, the dendrogram
goes through a state before each of its joins in which the slots in use ascend, their clusters are
disjoint and live in the slots of their smallest positions, and the table holds the wrapped sums of
the calls between them.  At least two slots are in use, so there is a join. -/
theorem exists_beforeJoin (m : CouplingMatrix) {number : Nat} (hpos : 0 < number)
    (hlt : number < m.units.size) :
    ∃ made s, Steps m m.units.size (start m) made s ∧ made.length + 1 = number ∧
      BeforeJoin m number s ∧ 2 ≤ s.slots.length ∧
      ∃ c s', s.step m (m.units.size + (made.length : Int)) = some (c, s') ∧
        (Dendrogram.ofMatrix m).merges =
          made ++ c :: run m (m.units.size + (number : Int)) (m.units.size - 1 - number) s' := by
  have hall : (start m).slots.length = m.units.size := List.length_finRange
  have hjoined : number - 1 ≤ (start m).slots.length := by omega
  obtain ⟨made, s, hsteps, hmade, hs, hslots⟩ := (Sound.start m).exists_joins m.units.size hjoined
  have hne : s.slots ≠ [] := List.length_pos_iff.1 (by omega)
  obtain ⟨c, s', hstep, -, -⟩ := hs.exists_join (m.units.size + (made.length : Int)) hne
  refine ⟨made, s, hsteps, by omega, hs.beforeJoin (by omega), by omega, c, s', hstep, ?_⟩
  have hrun := hsteps.run_eq (m.units.size - 1 - number + 1)
  have hjoins : made.length + (m.units.size - 1 - number + 1) = m.units.size - 1 := by omega
  have hid : (m.units.size : Int) + (made.length : Int) + 1 =
      m.units.size + (number : Int) := by omega
  rw [hjoins, run, hstep, hid] at hrun
  exact hrun

end Linkage

/-- Three units with `2 ^ 62` calls in each direction between any two of them. -/
def CallGraph.saturated : CallGraph :=
  .ofHistory [.named "A", .named "B", .named "C"]
    [⟨.named "A", .named "B", 2 ^ 62⟩, ⟨.named "B", .named "A", 2 ^ 62⟩,
      ⟨.named "A", .named "C", 2 ^ 62⟩, ⟨.named "C", .named "A", 2 ^ 62⟩,
      ⟨.named "B", .named "C", 2 ^ 62⟩, ⟨.named "C", .named "B", 2 ^ 62⟩]

/-- All sums of the saturated call graph wrap around to `-2 ^ 63`, so the first join takes the first
slot twice. -/
theorem Linkage.exists_beforeJoin_saturated : ∃ m : CouplingMatrix,
    CouplingMatrix.ofGraph .saturated = .ok m ∧ 0 < 2 ∧ 2 < m.units.size ∧
      (bestPair (start m).scores (start m).slots).map (fun best =>
        (best.first.val, best.second.val, best.score)) = some (0, 0, -1) ∧
      ∃ made s, Steps m m.units.size (start m) made s ∧ made.length + 1 = 2 ∧
        BeforeJoin m 2 s ∧ 2 ≤ s.slots.length ∧
        ∃ c s', s.step m (m.units.size + (made.length : Int)) = some (c, s') ∧
          (Dendrogram.ofMatrix m).merges =
            made ++ c :: run m (m.units.size + ((2 : Nat) : Int)) (m.units.size - 1 - 2) s' := by
  obtain ⟨m, hm, hsize, hbest⟩ : ∃ m : CouplingMatrix,
      CouplingMatrix.ofGraph .saturated = .ok m ∧ m.units.size = 3 ∧
        (bestPair (start m).scores (start m).slots).map (fun best =>
          (best.first.val, best.second.val, best.score)) = some (0, 0, -1) :=
    ⟨_, by with_unfolding_all rfl, by decide, by decide +kernel⟩
  exact ⟨m, hm, by decide, by omega, hbest, exists_beforeJoin m (by decide) (by omega)⟩

end Cohesion
