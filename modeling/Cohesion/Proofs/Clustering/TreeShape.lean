/-
The shape of a dendrogram.

The dendrogram of a bounded matrix is a binary tree over all units: its leaves and merges are the
nodes of the tree under its root, each of them once, and each but the root has one parent.

Main definitions:
* `Dendrogram.nodes` — the leaves and the merges;
* `Dendrogram.WellFormed` — a binary tree over the units of a matrix, and the walk through it.

Main results:
* `Dendrogram.exists_root` — the root of the dendrogram of a bounded matrix;
* `Dendrogram.existsUnique_parent` — the parent of a node;
* `Dendrogram.wellFormed_of_build` — the dendrogram of accepted calls is well-formed.
-/
import Cohesion.Proofs.Clustering.Linkage
import Cohesion.Proofs.Coupling.Build

set_option autoImplicit false

namespace Cohesion

/-- Where lists stand one after the other without repetition, nothing is in two of them. -/
theorem eq_of_mem_flatMap {α β : Type} {l : List α} {f : α → List β} {a b : α} {x : β}
    (h : (l.flatMap f).Nodup) (ha : a ∈ l) (hb : b ∈ l) (hxa : x ∈ f a) (hxb : x ∈ f b) :
    a = b := by
  by_contra hne
  have hsymm : Std.Symm (Function.onFun List.Disjoint f) := ⟨fun _ _ h => h.symm⟩
  exact (List.nodup_flatMap.1 h).2.forall ha hb hne hxa hxb

/-! ### Nodes of linked trees -/

namespace CouplingMatrix.Linked

variable {m : CouplingMatrix} {c : Cluster}

theorem min?_indices (h : m.Linked c) : c.indices.min? = some c.least := by
  have hne : c.indices ≠ [] := fun hnil => h.members_ne_nil (List.map_eq_nil_iff.1 hnil)
  obtain ⟨a, ha⟩ := Option.isSome_iff_exists.1 (List.isSome_min?_of_ne_nil hne)
  rw [ha, Cluster.least_eq_of_min? ha]

/-- The units of a linked tree are those of the matrix at its positions. -/
theorem units_eq (h : m.Linked c) :
    List.Forall₂ (fun i u => 0 ≤ i ∧ m.units[i.toNat]? = some u) c.indices c.units := by
  rw [Cluster.indices, Cluster.units, List.forall₂_map_left_iff, List.forall₂_map_right_iff,
    List.forall₂_same]
  intro a ha
  obtain ⟨i, -, rfl⟩ := List.mem_map.1 (h.members_subset ha)
  exact ⟨Int.natCast_nonneg _, Array.getElem?_eq_getElem i.isLt⟩

/-- A linked tree that is not a leaf has two children that fit together. -/
theorem exists_children (h : m.Linked c) (hid : (m.units.size : Int) ≤ c.id) :
    ∃ l r, c.children = [l, r] ∧ m.Linked l ∧ m.Linked r ∧ l.id < c.id ∧ r.id < c.id ∧
      l.indices.Disjoint r.indices ∧ (∀ i, i ∈ c.indices ↔ i ∈ l.indices ∨ i ∈ r.indices) ∧
      l.least < r.least := by
  cases h with
  | leaf i =>
      have hlt : (i.val : Int) < m.units.size := Int.ofNat_lt.2 i.isLt
      exact absurd hid (not_le.2 hlt)
  | @join i l r hl hr hil hir hdisj hleast =>
      exact ⟨l, r, rfl, hl, hr, hil, hir, hdisj, fun a => Cluster.mem_indices_join, hleast⟩

end CouplingMatrix.Linked

namespace Dendrogram

variable {m : CouplingMatrix}

/-- All nodes: the leaves and the merges. -/
def nodes (d : Dendrogram) : List Cluster := d.leaves ++ d.merges

/-! ### The root -/

/-- The walk meets the nodes of the tree under the root in pre-order. -/
theorem walk_eq_preorder {d : Dendrogram} {root : Cluster} (h : d.root? = some root) :
    d.walk = root.preorder := by
  unfold walk
  rw [h]
  exact (Cluster.visit_eq_flatMap [root]).trans (List.flatMap_singleton _ _)

/-- When all merges have been made, the root is in the one slot that is left in use. -/
theorem exists_root_slot {s : Linkage m.units.size} (hf : Linkage.Forest m (ofMatrix m).merges s)
    (hlen : (ofMatrix m).merges.length = m.units.size - 1) (hn : 2 ≤ m.units.size) :
    ∃ x root, s.slots = [x] ∧ (ofMatrix m).root? = some root ∧ s.node x = root := by
  have hne : (ofMatrix m).merges ≠ [] := List.length_pos_iff.1 (by omega)
  obtain ⟨root, hroot⟩ := Option.isSome_iff_exists.1 (List.getLast?_isSome.2 hne)
  obtain ⟨x, hx, hnode⟩ := hf.newest root hroot
  have hone : s.slots.length = 1 := by
    have hcount := hf.count
    omega
  obtain ⟨y, hy⟩ := List.length_eq_one_iff.1 hone
  rw [hy, List.mem_singleton] at hx
  exact ⟨x, root, hx ▸ hy, hroot, hnode⟩

/-- The root of the dendrogram of a bounded matrix is a linked tree of all units, and the nodes
of this tree are the leaves and the merges. -/
theorem exists_root (hm : m.Bounded) (hn : 2 ≤ m.units.size) :
    ∃ root, (ofMatrix m).root? = some root ∧ m.Linked root ∧ root.members = m.members ∧
      root.preorder.Perm (ofMatrix m).nodes := by
  obtain ⟨s, hf, hlen⟩ := exists_forest hm (by omega)
  obtain ⟨x, root, hslots, hroot, hnode⟩ := exists_root_slot hf hlen hn
  have hlinked := hf.linked x (hslots ▸ List.mem_singleton_self x)
  have hcovers := hf.covers
  have hnodes := hf.nodes
  rw [hslots, List.flatMap_singleton, hnode] at hcovers hnodes
  rw [hnode] at hlinked
  refine ⟨root, hroot, hlinked, ?_, hnodes⟩
  exact hcovers.eq_of_pairwise (fun a b _ _ hab hba => absurd hab (lt_asymm hba))
    (List.pairwise_map.1 hlinked.sorted) m.members_sorted

/-! ### Identifiers -/

theorem leaf_ids (m : CouplingMatrix) : (ofMatrix m).leaves.map Cluster.id =
    (List.range m.units.size).map fun k : Nat => (k : Int) := by
  rw [ofMatrix, List.map_map, ← List.map_coe_finRange_eq_range, List.map_map]
  rfl

theorem merge_ids (hm : m.Bounded) (hn : 0 < m.units.size) : (ofMatrix m).merges.map Cluster.id =
    (List.range (m.units.size - 1)).map fun k : Nat => (m.units.size : Int) + (k : Int) := by
  obtain ⟨s, hf, hlen⟩ := exists_forest hm hn
  rw [hf.made_ids, hlen]

theorem merges_eq_nil (hn : m.units.size < 2) : (ofMatrix m).merges = [] := by
  have hsteps : m.units.size - 1 = 0 := by omega
  rw [ofMatrix, hsteps]
  rfl

theorem le_id_of_mem_merges (hm : m.Bounded) {c : Cluster} (hc : c ∈ (ofMatrix m).merges) :
    (m.units.size : Int) ≤ c.id := by
  by_cases hn : m.units.size < 2
  · rw [merges_eq_nil hn] at hc
    cases hc
  · have hid := List.mem_map_of_mem (f := Cluster.id) hc
    rw [merge_ids hm (by omega)] at hid
    obtain ⟨k, -, hk⟩ := List.mem_map.1 hid
    omega

theorem linked_of_mem_nodes (hm : m.Bounded) {c : Cluster} (hc : c ∈ (ofMatrix m).nodes) :
    m.Linked c := by
  by_cases hn : m.units.size < 2
  · -- fewer than two units are not joined, so all nodes are leaves
    rw [nodes, merges_eq_nil hn, List.append_nil] at hc
    obtain ⟨i, rfl⟩ := Linkage.mem_leaves.1 hc
    exact .leaf i
  · obtain ⟨root, -, hlinked, -, hperm⟩ := exists_root hm (by omega)
    exact hlinked.of_mem_preorder (hperm.mem_iff.2 hc)

theorem linked_of_root? (hm : m.Bounded) {root : Cluster} (h : (ofMatrix m).root? = some root) :
    m.Linked root :=
  linked_of_mem_nodes hm (List.mem_append_right _ (List.mem_of_getLast? h))

/-- The nodes are numbered from zero. -/
theorem node_ids (hm : m.Bounded) (hn : 0 < m.units.size) : (ofMatrix m).nodes.map Cluster.id =
    (List.range (2 * m.units.size - 1)).map fun k : Nat => (k : Int) := by
  have hsum : 2 * m.units.size - 1 = m.units.size + (m.units.size - 1) := by omega
  rw [nodes, List.map_append, leaf_ids, merge_ids hm hn, hsum, List.range_add, List.map_append,
    List.map_map]
  rfl

theorem nodes_nodup (hm : m.Bounded) (hn : 0 < m.units.size) : (ofMatrix m).nodes.Nodup := by
  refine List.Nodup.of_map Cluster.id ?_
  rw [node_ids hm hn]
  exact List.nodup_range.map fun _ _ h => Int.ofNat_inj.1 h

/-! ### Parents -/

/-- In a tree without repeated nodes every node but the root is the child of exactly one node. -/
theorem existsUnique_parent {root c : Cluster} (hnodup : root.preorder.Nodup)
    (hc : c ∈ root.preorder) (hroot : c ≠ root) :
    ∃! p, p ∈ root.preorder ∧ c ∈ p.children := by
  have hperm := root.preorder_perm_cons_children
  have hchildren := (List.nodup_cons.1 (hperm.nodup_iff.1 hnodup)).2
  have hmem : c ∈ root.preorder.flatMap Cluster.children :=
    (List.mem_cons.1 (hperm.mem_iff.1 hc)).resolve_left hroot
  obtain ⟨p, hp, hcp⟩ := List.mem_flatMap.1 hmem
  exact ⟨p, ⟨hp, hcp⟩, fun q ⟨hq, hcq⟩ => eq_of_mem_flatMap hchildren hq hp hcq hcp⟩

/-- The root is the child of no node. -/
theorem root_notMem_children {root p : Cluster} (hnodup : root.preorder.Nodup)
    (hp : p ∈ root.preorder) : root ∉ p.children := by
  intro hchild
  refine (List.nodup_cons.1 (root.preorder_perm_cons_children.nodup_iff.1 hnodup)).1 ?_
  exact List.mem_flatMap.2 ⟨p, hp, hchild⟩

/-! ### Well-formed dendrograms -/

/-- The dendrogram is a binary tree over the units of the matrix. -/
structure WellFormed (m : CouplingMatrix) (d : Dendrogram) : Prop where
  /-- The leaves are numbered by the positions of the units. -/
  leaf_ids : d.leaves.map Cluster.id = (List.range m.units.size).map fun k : Nat => (k : Int)
  /-- A leaf has no children and holds the position that is its number. -/
  leaf : ∀ c ∈ d.leaves, c.children = [] ∧ c.indices = [c.id]
  /-- The merges are numbered on, one less than there are units. -/
  merge_ids : d.merges.map Cluster.id =
    (List.range (m.units.size - 1)).map fun k : Nat => (m.units.size : Int) + (k : Int)
  /-- A merge has two children with smaller numbers, and each of its positions is in one of them;
  the smallest one is in the left child. -/
  merge : ∀ c ∈ d.merges, ∃ l r, c.children = [l, r] ∧ l ∈ d.nodes ∧ r ∈ d.nodes ∧
    l.id < c.id ∧ r.id < c.id ∧ l.indices.Disjoint r.indices ∧
    (∀ i, i ∈ c.indices ↔ i ∈ l.indices ∨ i ∈ r.indices) ∧
    ∃ a b, l.indices.min? = some a ∧ r.indices.min? = some b ∧ a < b
  /-- The positions of a node ascend. -/
  ascending : ∀ c ∈ d.nodes, c.indices.Pairwise (· < ·)
  /-- The units of a node are those at its positions. -/
  units : ∀ c ∈ d.nodes,
    List.Forall₂ (fun i u => 0 ≤ i ∧ m.units[i.toNat]? = some u) c.indices c.units
  /-- The root is the child of no merge and holds all units. -/
  root : ∃ root, d.root? = some root ∧ root.units = m.units.toList ∧
    ∀ p ∈ d.merges, root ∉ p.children
  /-- Every other node is the child of exactly one merge. -/
  parent : ∀ c ∈ d.nodes, d.root? ≠ some c → ∃! p, p ∈ d.merges ∧ c ∈ p.children
  /-- The walk meets the nodes. -/
  walk_perm : d.walk.Perm d.nodes
  /-- The walk meets no node twice. -/
  walk_nodup : d.walk.Nodup
  /-- There are as many nodes on the walk as leaves and merges. -/
  walk_length : d.walk.length = 2 * m.units.size - 1
  /-- The walk meets each node before what lies below it. -/
  walk_below : ∀ c ∈ d.nodes, ∀ e, e.Below c → [c, e].Sublist d.walk
  /-- The walk meets the whole left subtree of a node before the right one. -/
  walk_children : ∀ c ∈ d.nodes, ∀ l r, c.children = [l, r] →
    ∀ a, a = l ∨ a.Below l → ∀ b, b = r ∨ b.Below r → [a, b].Sublist d.walk

theorem wellFormed (hm : m.Bounded) (hn : 2 ≤ m.units.size) : (ofMatrix m).WellFormed m := by
  obtain ⟨root, hroot, hlinked, hmembers, hperm⟩ := exists_root hm hn
  have hnodes := nodes_nodup hm (by omega)
  have hpreorder := hperm.nodup_iff.2 hnodes
  have hwalk := walk_eq_preorder hroot
  have hleaf : ∀ c ∈ (ofMatrix m).leaves, c.children = [] ∧ c.indices = [c.id] := by
    intro c hc
    obtain ⟨i, rfl⟩ := Linkage.mem_leaves.1 hc
    exact ⟨rfl, rfl⟩
  -- a node with a child is a merge
  have hmerge : ∀ p ∈ root.preorder, ∀ c ∈ p.children, p ∈ (ofMatrix m).merges := by
    intro p hp c hc
    refine (List.mem_append.1 (hperm.mem_iff.1 hp)).resolve_left fun hpleaf => ?_
    rw [(hleaf p hpleaf).1] at hc
    cases hc
  have hofMerge : ∀ p ∈ (ofMatrix m).merges, p ∈ root.preorder :=
    fun p hp => hperm.mem_iff.2 (List.mem_append_right _ hp)
  constructor
  case leaf_ids => exact leaf_ids m
  case leaf => exact hleaf
  case merge_ids => exact merge_ids hm (by omega)
  case merge =>
    intro c hc
    obtain ⟨l, r, hchildren, hl, hr, hlid, hrid, hdisj, hunion, hleast⟩ :=
      (linked_of_mem_nodes hm (List.mem_append_right _ hc)).exists_children
        (le_id_of_mem_merges hm hc)
    have hchild : ∀ child ∈ c.children, child ∈ (ofMatrix m).nodes := fun child h =>
      hperm.mem_iff.1 (Cluster.mem_preorder_of_mem_children (hofMerge c hc) h)
    refine ⟨l, r, hchildren, hchild l ?_, hchild r ?_, hlid, hrid, hdisj, hunion,
      l.least, r.least, hl.min?_indices, hr.min?_indices, hleast⟩
    · rw [hchildren]
      exact List.mem_cons_self
    · rw [hchildren]
      exact List.mem_cons_of_mem _ List.mem_cons_self
  case ascending => exact fun c hc => (linked_of_mem_nodes hm hc).sorted
  case units => exact fun c hc => (linked_of_mem_nodes hm hc).units_eq
  case root =>
    refine ⟨root, hroot, ?_, fun p hp => root_notMem_children hpreorder (hofMerge p hp)⟩
    rw [Cluster.units, hmembers, CouplingMatrix.members_units]
  case parent =>
    intro c hc hne
    have hne' : c ≠ root := fun h => hne (h ▸ hroot)
    obtain ⟨p, ⟨hp, hcp⟩, hunique⟩ := existsUnique_parent hpreorder (hperm.mem_iff.2 hc) hne'
    exact ⟨p, ⟨hmerge p hp c hcp, hcp⟩, fun q hq => hunique q ⟨hofMerge q hq.1, hq.2⟩⟩
  case walk_perm => rwa [hwalk]
  case walk_nodup => rwa [hwalk]
  case walk_length =>
    have hids := congrArg List.length (node_ids hm (by omega))
    rw [List.length_map, List.length_map, List.length_range] at hids
    rw [hwalk, hperm.length_eq, hids]
  case walk_below =>
    intro c hc e he
    rw [hwalk]
    exact Cluster.sublist_preorder_of_below (hperm.mem_iff.2 hc) he
  case walk_children =>
    intro c hc l r hchildren a ha b hb
    rw [hwalk]
    exact Cluster.sublist_preorder_of_children (hperm.mem_iff.2 hc) hchildren
      (Cluster.mem_preorder_iff_eq_or_below.2 ha) (Cluster.mem_preorder_iff_eq_or_below.2 hb)

/-- **The dendrogram is a well-formed binary tree**: for calls between at least two units that are
accepted and whose counts sum to less than `2 ^ 63`. -/
theorem wellFormed_of_build {units : List CodeUnit} {calls : List Call} {m : CouplingMatrix}
    (hbuild : CouplingMatrix.build units calls = .ok m) (hunits : 2 ≤ units.length)
    (hsum : sumOf (calls.map (·.count)) < 2 ^ 63) : (ofMatrix m).WellFormed m := by
  have hsize := CouplingMatrix.size_of_build hbuild
  exact wellFormed (CouplingMatrix.bounded_of_build hbuild hsum) (by omega)

theorem wellFormed_square : ∃ m : CouplingMatrix,
    CouplingMatrix.build CallGraph.square.units CallGraph.square.calls = .ok m ∧
      (ofMatrix m).WellFormed m := by
  obtain ⟨m, hm⟩ := CouplingMatrix.exists_ofGraph_square
  exact ⟨m, hm, wellFormed_of_build hm (by decide) (by decide)⟩

end Dendrogram

end Cohesion
