/-
Every call is joined once.

The calls inside a cluster are counted from the matrix, over all pairs of its members.  Joining two
disjoint clusters adds the pairs across to the pairs of each, so the calls inside a node are the
sums, over the merges of its tree, of the calls that each of them brought together.  For the root
these are all calls: any two units are on different sides of exactly one merge.

Main definitions:
* `CouplingMatrix.joinedCalls` — the calls between the children of a node;
* `Cluster.Separates` — two positions are on different sides of a node.

Main results:
* `CouplingMatrix.Linked.internalCalls_eq` — the calls inside a linked tree are a sum over its nodes;
* `CouplingMatrix.Linked.existsUnique_separates` — two members of a linked tree are on different
  sides of exactly one node;
* `Dendrogram.calls_accounted` — the merges of a dendrogram account for all calls.
-/
import Cohesion.Proofs.Clustering.TreeShape
import Cohesion.Proofs.Coupling.Totals

set_option autoImplicit false

namespace Cohesion

/-- The calls between the children of a node, none for a node without children. -/
def CouplingMatrix.joinedCalls (m : CouplingMatrix) : Cluster → Int
  | .leaf _ _ => 0
  | .merge _ _ left right _ => crossSum m.weight left.indices right.indices

/-- Two positions are on different sides of a node. -/
def Cluster.Separates (c : Cluster) (i j : Int) : Prop :=
  ∃ l r, c.children = [l, r] ∧
    (i ∈ l.indices ∧ j ∈ r.indices ∨ j ∈ l.indices ∧ i ∈ r.indices)

namespace CouplingMatrix.Linked

variable {m : CouplingMatrix} {c : Cluster}

/-! ### The positions of a linked tree -/

/-- The positions of a linked tree are different positions of the matrix. -/
theorem indices_subperm (h : m.Linked c) : c.indices.Subperm m.positions := by
  refine List.subperm_of_subset (h.sorted.imp ne_of_lt) ?_
  intro i hi
  obtain ⟨a, ha, rfl⟩ := List.mem_map.1 hi
  exact List.mem_map_of_mem (h.members_subset ha)

theorem exists_position (h : m.Linked c) {a : Int} (ha : a ∈ c.indices) :
    ∃ i : Fin m.units.size, a = i.val := by
  have hpos := h.indices_subperm.subset ha
  rw [positions_eq] at hpos
  obtain ⟨i, -, rfl⟩ := List.mem_map.1 hpos
  exact ⟨i, rfl⟩

/-- A node of a linked tree has only positions of the tree. -/
theorem indices_subset (h : m.Linked c) {d : Cluster} (hd : d ∈ c.preorder) :
    d.indices ⊆ c.indices := by
  induction h with
  | leaf i =>
      rw [List.mem_singleton.1 hd]
      exact List.Subset.refl _
  | @join i l r _ _ _ _ _ _ ihl ihr =>
      intro a ha
      rcases Cluster.mem_preorder_merge.1 hd with rfl | hd | hd
      · exact ha
      · exact Cluster.mem_indices_join.2 (Or.inl (ihl hd ha))
      · exact Cluster.mem_indices_join.2 (Or.inr (ihr hd ha))

/-- A node that separates two positions has both of them. -/
theorem mem_of_separates (h : m.Linked c) {i j : Int} (hsep : c.Separates i j) :
    i ∈ c.indices ∧ j ∈ c.indices := by
  obtain ⟨l, r, hchildren, hsides⟩ := hsep
  cases h with
  | leaf k => cases hchildren
  | join =>
      cases hchildren
      rcases hsides with ⟨hi, hj⟩ | ⟨hj, hi⟩
      · exact ⟨Cluster.mem_indices_join.2 (Or.inl hi), Cluster.mem_indices_join.2 (Or.inr hj)⟩
      · exact ⟨Cluster.mem_indices_join.2 (Or.inr hi), Cluster.mem_indices_join.2 (Or.inl hj)⟩

/-! ### The calls inside a tree -/

/-- The pairs of a linked tree that was joined are those of its children and those across. -/
theorem pairSum_join {i : Int} {l r : Cluster} {k : Binary64} :
    pairSum m.weight (Cluster.join i l r k).indices =
      pairSum m.weight l.indices + pairSum m.weight r.indices +
        crossSum m.weight l.indices r.indices := by
  rw [pairSum_perm m.weight_comm (Cluster.indices_join_perm i l r k), pairSum_append]

/-- The calls inside a linked tree are those that its merges brought together. -/
theorem pairSum_eq_sum (h : m.Linked c) :
    pairSum m.weight c.indices = (c.preorder.map m.joinedCalls).sum := by
  induction h with
  | leaf i => rfl
  | @join i l r _ _ _ _ _ _ ihl ihr =>
      rw [pairSum_join, ihl, ihr, Cluster.join, Cluster.preorder_merge, List.map_cons,
        List.sum_cons, List.map_append, List.sum_append, joinedCalls]
      ring

theorem internalCalls_eq (hm : m.Bounded) (h : m.Linked c) :
    (m.internalCalls c.indices).toInt = (c.preorder.map m.joinedCalls).sum := by
  rw [hm.toInt_internalCalls h.indices_subperm, h.pairSum_eq_sum]

/-- The positions of a linked tree are positions, so the calls inside it are found as they are. -/
theorem internalCalls?_eq (h : m.Linked c) :
    m.internalCalls? c.indices = .ok (m.internalCalls c.indices) := by
  have hresolve : c.indices.mapM m.resolve = .ok c.indices := by
    refine (mapM_eq_ok_iff _ _ _).2 (List.forall₂_same.2 fun i hi => ?_)
    obtain ⟨k, rfl⟩ := h.exists_position hi
    have hk := k.isLt
    simp [resolve, size]
  unfold internalCalls?
  split
  · rename_i hlen
    match hc : c.indices with
    | [] => rfl
    | [i] => rfl
    | i :: j :: rest =>
        rw [hc, List.length_cons, List.length_cons] at hlen
        omega
  · rw [hresolve]
    rfl

/-! ### Joins of linked trees -/

/-- What is known of a linked tree that is not a leaf. -/
theorem join_calls (hm : m.Bounded) (h : m.Linked c) (hid : (m.units.size : Int) ≤ c.id) :
    ∃ l r, c.children = [l, r] ∧ c.mergeCoupling = m.clusterCoupling l r ∧
      (m.internalCalls c.indices).toInt =
        (m.internalCalls l.indices).toInt + (m.internalCalls r.indices).toInt +
          crossSum m.weight l.indices r.indices := by
  have hc := h
  cases h with
  | leaf i =>
      have hlt : (i.val : Int) < m.units.size := Int.ofNat_lt.2 i.isLt
      exact absurd hid (not_le.2 hlt)
  | @join i l r hl hr _ _ hdisj _ =>
      have hboth : (l.indices ++ r.indices).Subperm m.positions :=
        (Cluster.indices_join_perm i l r _).symm.subperm.trans hc.indices_subperm
      refine ⟨l, r, rfl, ?_, ?_⟩
      · rw [clusterCoupling, hm.toInt_crossCalls hboth]
        rfl
      · rw [hm.toInt_internalCalls hc.indices_subperm, hm.toInt_internalCalls hl.indices_subperm,
          hm.toInt_internalCalls hr.indices_subperm, pairSum_join]

/-! ### Sides -/

/-- A node of a joined tree that separates two positions is the root, with the positions in
different children, or it is below the one child that has both. -/
theorem separates_cases {n : Int} {l r d : Cluster} {k : Binary64} (hl : m.Linked l)
    (hr : m.Linked r) {i j : Int} (hd : d ∈ (Cluster.join n l r k).preorder)
    (hsep : d.Separates i j) :
    (d = Cluster.join n l r k ∧
        (i ∈ l.indices ∧ j ∈ r.indices ∨ j ∈ l.indices ∧ i ∈ r.indices)) ∨
      (d ∈ l.preorder ∧ i ∈ l.indices ∧ j ∈ l.indices) ∨
      (d ∈ r.preorder ∧ i ∈ r.indices ∧ j ∈ r.indices) := by
  rcases Cluster.mem_preorder_merge.1 hd with rfl | hd | hd
  · obtain ⟨l', r', hchildren, hsides⟩ := hsep
    cases hchildren
    exact Or.inl ⟨rfl, hsides⟩
  · obtain ⟨hi, hj⟩ := (hl.of_mem_preorder hd).mem_of_separates hsep
    exact Or.inr (Or.inl ⟨hd, hl.indices_subset hd hi, hl.indices_subset hd hj⟩)
  · obtain ⟨hi, hj⟩ := (hr.of_mem_preorder hd).mem_of_separates hsep
    exact Or.inr (Or.inr ⟨hd, hr.indices_subset hd hi, hr.indices_subset hd hj⟩)

theorem exists_separates (h : m.Linked c) {i j : Int} (hij : i ≠ j) (hi : i ∈ c.indices)
    (hj : j ∈ c.indices) : ∃ d ∈ c.preorder, d.Separates i j := by
  induction h with
  | leaf k =>
      have hik : i = k.val := List.mem_singleton.1 hi
      have hjk : j = k.val := List.mem_singleton.1 hj
      exact absurd (hik.trans hjk.symm) hij
  | @join n l r _ _ _ _ _ _ ihl ihr =>
      rw [Cluster.mem_indices_join] at hi hj
      rcases hi with hil | hir <;> rcases hj with hjl | hjr
      case inl.inl =>
        obtain ⟨d, hd, hsep⟩ := ihl hil hjl
        exact ⟨d, Cluster.mem_preorder_merge.2 (Or.inr (Or.inl hd)), hsep⟩
      case inl.inr =>
        exact ⟨_, Cluster.self_mem_preorder _, l, r, rfl, Or.inl ⟨hil, hjr⟩⟩
      case inr.inl =>
        exact ⟨_, Cluster.self_mem_preorder _, l, r, rfl, Or.inr ⟨hjl, hir⟩⟩
      case inr.inr =>
        obtain ⟨d, hd, hsep⟩ := ihr hir hjr
        exact ⟨d, Cluster.mem_preorder_merge.2 (Or.inr (Or.inr hd)), hsep⟩

theorem separates_unique (h : m.Linked c) {i j : Int} {d e : Cluster} (hd : d ∈ c.preorder)
    (he : e ∈ c.preorder) (hdsep : d.Separates i j) (hesep : e.Separates i j) : d = e := by
  induction h with
  | leaf k => rw [List.mem_singleton.1 hd, List.mem_singleton.1 he]
  | @join n l r hl hr _ _ hdisj _ ihl ihr =>
      -- positions in different children are not both in the same one
      have hnotleft : i ∈ l.indices ∧ j ∈ r.indices ∨ j ∈ l.indices ∧ i ∈ r.indices →
          i ∈ l.indices → j ∈ l.indices → False := by
        rintro (⟨-, hjr⟩ | ⟨-, hir⟩) hil hjl
        · exact hdisj hjl hjr
        · exact hdisj hil hir
      have hnotright : i ∈ l.indices ∧ j ∈ r.indices ∨ j ∈ l.indices ∧ i ∈ r.indices →
          i ∈ r.indices → j ∈ r.indices → False := by
        rintro (⟨hil, -⟩ | ⟨hjl, -⟩) hir hjr
        · exact hdisj hil hir
        · exact hdisj hjl hjr
      rcases separates_cases hl hr hd hdsep with ⟨rfl, hcross⟩ | ⟨hd, hdi, hdj⟩ | ⟨hd, hdi, hdj⟩ <;>
        rcases separates_cases hl hr he hesep with
          ⟨rfl, hcross'⟩ | ⟨he, hei, hej⟩ | ⟨he, hei, hej⟩
      · rfl
      · exact (hnotleft hcross hei hej).elim
      · exact (hnotright hcross hei hej).elim
      · exact (hnotleft hcross' hdi hdj).elim
      · exact ihl hd he
      · exact (hdisj hdi hei).elim
      · exact (hnotright hcross' hdi hdj).elim
      · exact (hdisj hei hdi).elim
      · exact ihr hd he

/-- Two different members of a linked tree are on different sides of exactly one node. -/
theorem existsUnique_separates (h : m.Linked c) {i j : Int} (hij : i ≠ j)
    (hi : i ∈ c.indices) (hj : j ∈ c.indices) :
    ∃! d, d ∈ c.preorder ∧ d.Separates i j := by
  obtain ⟨d, hd, hsep⟩ := h.exists_separates hij hi hj
  exact ⟨d, ⟨hd, hsep⟩, fun e ⟨he, hesep⟩ => h.separates_unique he hd hesep hsep⟩

end CouplingMatrix.Linked

namespace Dendrogram

variable {m : CouplingMatrix}

/-! ### The whole dendrogram -/

/-- The merges of a dendrogram bring together all pairs of units. -/
theorem sum_joinedCalls (hm : m.Bounded) (hn : 2 ≤ m.units.size) :
    ((ofMatrix m).merges.map m.joinedCalls).sum = pairSum m.weight m.positions := by
  obtain ⟨root, -, hlinked, hmembers, hperm⟩ := exists_root hm hn
  have hpositions : root.indices = m.positions := congrArg (List.map Member.index) hmembers
  have hleaves : ((ofMatrix m).leaves.map m.joinedCalls).sum = 0 := by
    refine List.sum_eq_zero fun k hk => ?_
    obtain ⟨c, hc, rfl⟩ := List.mem_map.1 hk
    obtain ⟨i, rfl⟩ := Linkage.mem_leaves.1 hc
    rfl
  rw [← hpositions, hlinked.pairSum_eq_sum, (hperm.map m.joinedCalls).sum_eq, nodes,
    List.map_append, List.sum_append, hleaves, zero_add]

/-- Two units are on different sides of exactly one merge. -/
theorem existsUnique_merge_separates (hm : m.Bounded) {i j : Fin m.units.size} (hij : i ≠ j) :
    ∃! c, c ∈ (ofMatrix m).merges ∧ c.Separates i.val j.val := by
  have hi := i.isLt
  have hj := j.isLt
  have hval : i.val ≠ j.val := fun h => hij (Fin.ext h)
  obtain ⟨root, -, hlinked, hmembers, hperm⟩ := exists_root hm (by omega)
  have hpositions : root.indices = m.positions := congrArg (List.map Member.index) hmembers
  have hall : ∀ k : Fin m.units.size, (k.val : Int) ∈ root.indices :=
    fun k => hpositions ▸ m.mem_positions k
  obtain ⟨c, ⟨hc, hsep⟩, hunique⟩ := hlinked.existsUnique_separates
    (fun h => hval (Int.ofNat_inj.1 h)) (hall i) (hall j)
  have hmerge : c ∈ (ofMatrix m).merges := by
    refine (List.mem_append.1 (hperm.mem_iff.1 hc)).resolve_left fun hleaf => ?_
    obtain ⟨k, rfl⟩ := Linkage.mem_leaves.1 hleaf
    obtain ⟨l, r, hchildren, -⟩ := hsep
    cases hchildren
  refine ⟨c, ⟨hmerge, hsep⟩, fun d ⟨hd, hdsep⟩ => hunique d ⟨?_, hdsep⟩⟩
  exact hperm.mem_iff.2 (List.mem_append_right _ hd)

/-- **The merges account for every call once**: for accepted calls whose counts sum to less than
`2 ^ 63`, the coupling of a merge is that of its children counted anew, and the calls inside it are
those inside its children and those between them.  So the calls inside any node are the calls
between the children of the nodes of its tree.  The merges of a dendrogram over at least two units
bring together all calls, and any two units at exactly one of them. -/
theorem calls_accounted {units : List CodeUnit} {calls : List Call}
    (hbuild : CouplingMatrix.build units calls = .ok m)
    (hsum : sumOf (calls.map (·.count)) < 2 ^ 63) :
    (∀ c ∈ (ofMatrix m).merges, ∃ l r, c.children = [l, r] ∧
      c.mergeCoupling = m.clusterCoupling l r ∧
      (m.internalCalls c.indices).toInt =
        (m.internalCalls l.indices).toInt + (m.internalCalls r.indices).toInt +
          crossSum m.weight l.indices r.indices) ∧
    (∀ c ∈ (ofMatrix m).nodes, m.internalCalls? c.indices = .ok (m.internalCalls c.indices) ∧
      (m.internalCalls c.indices).toInt = (c.preorder.map m.joinedCalls).sum) ∧
    (2 ≤ units.length →
      ((ofMatrix m).merges.map m.joinedCalls).sum = m.total.toInt ∧
      m.total.toInt = sumOf (calls.map (·.count)) ∧
      ∀ i j : Fin m.units.size, i ≠ j →
        ∃! c, c ∈ (ofMatrix m).merges ∧ c.Separates i.val j.val) := by
  have hm := CouplingMatrix.bounded_of_build hbuild hsum
  refine ⟨?_, ?_, ?_⟩
  · intro c hc
    have hlinked := linked_of_mem_nodes hm (List.mem_append_right _ hc)
    exact hlinked.join_calls hm (le_id_of_mem_merges hm hc)
  · intro c hc
    have hlinked := linked_of_mem_nodes hm hc
    exact ⟨hlinked.internalCalls?_eq, hlinked.internalCalls_eq hm⟩
  · intro hn
    have hsize := CouplingMatrix.size_of_build hbuild
    have htotal := CouplingMatrix.toInt_total_of_build hbuild hsum
    refine ⟨?_, htotal, fun i j hij => existsUnique_merge_separates hm hij⟩
    rw [sum_joinedCalls hm (by omega), htotal, CouplingMatrix.pairSum_weight_of_build hbuild hsum]

/-- The six calls of the small call graph are brought together by three merges. -/
theorem calls_accounted_square : ∃ m : CouplingMatrix,
    CouplingMatrix.build CallGraph.square.units CallGraph.square.calls = .ok m ∧
      ((ofMatrix m).merges.map m.joinedCalls).sum = 6 := by
  obtain ⟨m, hm⟩ := CouplingMatrix.exists_ofGraph_square
  obtain ⟨hall, htotal, -⟩ := (calls_accounted hm (by decide)).2.2 (by decide)
  exact ⟨m, hm, hall.trans (htotal.trans (by decide))⟩

end Dendrogram

end Cohesion
