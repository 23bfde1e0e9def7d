/-
Inversions.

Calls to a joined cluster are the calls to both of its children, so a join may bring together more
calls than the join before it.  That happens only when the newest cluster is joined again: the calls
between all other clusters were there before, and none of them were more than the greatest number,
which the last join has taken.  The newest cluster has twice as many at most, since each of its
children had no more.

Main definitions:
* `CouplingMatrix.Follows` — what holds of a merge and the next one.

Main results:
* `Linkage.Picks.calls_after_of_ne`, `Linkage.Picks.calls_after_le` — the calls after a join;
* `Linkage.Sound.isChain_run` — the clusters of a run follow each other;
* `Dendrogram.merges_follow` — **so do the merges of a dendrogram**.
-/
import Cohesion.Proofs.Clustering.Accounting

set_option autoImplicit false

namespace Cohesion

/-- A merge may follow another one: it brings together at most twice as many calls, and if it brings
together more calls, then the other merge is one of its children. -/
def CouplingMatrix.Follows (m : CouplingMatrix) (c next : Cluster) : Prop :=
  m.joinedCalls next ≤ 2 * m.joinedCalls c ∧
    (m.joinedCalls c < m.joinedCalls next → c ∈ next.children)

namespace Linkage

variable {m : CouplingMatrix} {s : Linkage m.units.size}

theorem joinedCalls_joined (id : Int) (x y : Fin m.units.size) :
    m.joinedCalls (s.joined m id x y) = s.calls m x y := rfl

theorem children_joined (id : Int) (x y : Fin m.units.size) :
    (s.joined m id x y).children = [s.node x, s.node y] := rfl

/-! ### One join -/

namespace Picks

variable {x y : Fin m.units.size} (hp : s.Picks m x y)

include hp

section

variable (hs : s.Sound m) (hm : m.Bounded) (id : Int) {i j : Fin m.units.size}
  (hi : i ∈ s.slots.erase y) (hj : j ∈ s.slots.erase y) (hij : i ≠ j)

include hs hm hij

/-- The calls after the join: those of the two joined clusters are added. -/
theorem calls_after_eq :
    (s.after (s.scored m x y) (s.joined m id x y)).calls m i j =
      if i = x then s.calls m x j + s.calls m y j
      else if j = x then s.calls m i x + s.calls m i y
      else s.calls m i j := by
  rw [← hs.merged_scored hm id hp]
  exact calls_after s (s.scored m x y) id hij

include hi hj

/-- The calls between two clusters that were there before the join are no more than it took. -/
theorem calls_after_of_ne (hix : i ≠ x) (hjx : j ≠ x) :
    (s.after (s.scored m x y) (s.joined m id x y)).calls m i j ≤ s.calls m x y := by
  rw [hp.calls_after_eq hs hm id hij, if_neg hix, if_neg hjx]
  exact hp.calls_le (List.mem_of_mem_erase hi) (List.mem_of_mem_erase hj) hij

/-- The calls between two clusters after the join are at most twice as many as it took. -/
theorem calls_after_le :
    (s.after (s.scored m x y) (s.joined m id x y)).calls m i j ≤ 2 * s.calls m x y := by
  obtain ⟨hiy, hi'⟩ := hs.slots_nodup.mem_erase_iff.1 hi
  obtain ⟨hjy, hj'⟩ := hs.slots_nodup.mem_erase_iff.1 hj
  rw [two_mul]
  by_cases hix : i = x
  · rw [hp.calls_after_eq hs hm id hij, if_pos hix]
    exact add_le_add (hp.calls_le hp.first_mem hj' (hix ▸ hij))
      (hp.calls_le hp.second_mem hj' (Ne.symm hjy))
  · by_cases hjx : j = x
    · rw [hp.calls_after_eq hs hm id hij, if_neg hix, if_pos hjx]
      exact add_le_add (hp.calls_le hi' hp.first_mem hix) (hp.calls_le hi' hp.second_mem hiy)
    · have hpos := calls_nonneg hm s x y
      exact (hp.calls_after_of_ne hs hm id hi hj hij hix hjx).trans (le_add_of_nonneg_left hpos)

/-- The join of two clusters follows the join before it. -/
theorem follows (next : Int) : m.Follows (s.joined m id x y)
    ((s.after (s.scored m x y) (s.joined m id x y)).joined m next i j) := by
  refine ⟨hp.calls_after_le hs hm id hi hj hij, fun hless => ?_⟩
  rw [joinedCalls_joined, joinedCalls_joined] at hless
  have hnewest : (s.after (s.scored m x y) (s.joined m id x y)).node x = s.joined m id x y :=
    (node_after ..).trans (if_pos rfl)
  -- clusters with more calls between them than were taken are not both from before the join
  have hnew : i = x ∨ j = x := by
    by_contra hold
    rw [not_or] at hold
    exact absurd hless (not_lt.2 (hp.calls_after_of_ne hs hm id hi hj hij hold.1 hold.2))
  rw [children_joined, List.mem_pair]
  rcases hnew with rfl | rfl
  · exact Or.inl hnewest.symm
  · exact Or.inr hnewest.symm

end

end Picks

/-! ### A run -/

/-- The clusters of a run follow each other. -/
theorem Sound.isChain_run (hm : m.Bounded) {steps : Nat} (hs : s.Sound m) (id : Int)
    (hsteps : steps < s.slots.length) : (run m id steps s).IsChain m.Follows := by
  induction steps generalizing s id with
  | zero => exact .nil
  | succ steps ih =>
      obtain ⟨x, y, hp, hstep⟩ := hs.exists_step hm id (by omega)
      have hs' := hs.after_picks hm id hp
      have hslots := length_slots_after s x hp.second_mem (s.joined m id x y)
      rw [run, hstep]
      refine List.isChain_cons.2 ⟨fun next hnext => ?_, ih hs' (id + 1) (by omega)⟩
      -- the next cluster is that of the join after this one
      cases steps with
      | zero => cases hnext
      | succ steps =>
          obtain ⟨i, j, hp', hstep'⟩ := hs'.exists_step hm (id + 1) (by omega)
          rw [run, hstep'] at hnext
          cases hnext
          exact hp.follows hs hm id hp'.first_mem hp'.second_mem (ne_of_lt hp'.lt) (id + 1)

end Linkage

namespace Dendrogram

variable {m : CouplingMatrix}

/-- **A merge brings together at most twice as many calls as the merge before it**, and if it brings
together more, then the merge before it is one of its children: for calls that are accepted and
whose counts sum to less than `2 ^ 63`. -/
theorem merges_follow {units : List CodeUnit} {calls : List Call}
    (hbuild : CouplingMatrix.build units calls = .ok m)
    (hsum : sumOf (calls.map (·.count)) < 2 ^ 63) :
    (ofMatrix m).merges.IsChain m.Follows := by
  have hm := CouplingMatrix.bounded_of_build hbuild hsum
  rcases Nat.eq_zero_or_pos m.units.size with hzero | hpos
  · rw [merges_eq_nil (by omega)]
    exact .nil
  · refine (Linkage.Sound.start m).isChain_run hm m.units.size ?_
    rw [Linkage.slots_start, List.length_finRange]
    omega

end Dendrogram

/-- Three units with one call between any two of them. -/
def CallGraph.triangle : CallGraph where
  units := [.named "A", .named "B", .named "C"]
  calls := [⟨.named "A", .named "B", 1⟩, ⟨.named "B", .named "C", 1⟩, ⟨.named "C", .named "A", 1⟩]

/-- The second merge of the triangle brings together twice as many calls as the first one. -/
theorem Dendrogram.merges_follow_triangle : ∃ m : CouplingMatrix,
    CouplingMatrix.build CallGraph.triangle.units CallGraph.triangle.calls = .ok m ∧
      ∃ c next, (ofMatrix m).merges = [c, next] ∧ m.joinedCalls c = 1 ∧
        m.joinedCalls next = 2 ∧ c ∈ next.children := by
  obtain ⟨m, hm, hcalls⟩ : ∃ m : CouplingMatrix,
      CouplingMatrix.build CallGraph.triangle.units CallGraph.triangle.calls = .ok m ∧
        (ofMatrix m).merges.map m.joinedCalls = [1, 2] :=
    ⟨_, by with_unfolding_all rfl, by decide +kernel⟩
  have hfollow := merges_follow hm (by decide)
  have hlength := congrArg List.length hcalls
  rw [List.length_map] at hlength
  obtain ⟨c, next, hmerges⟩ := List.length_eq_two.1 hlength
  rw [hmerges, List.map_cons, List.map_cons, List.cons.injEq, List.cons.injEq] at hcalls
  rw [hmerges, List.isChain_cons_cons] at hfollow
  exact ⟨m, hm, c, next, hmerges, hcalls.1, hcalls.2.1, hfollow.1.2 (by omega)⟩

end Cohesion
