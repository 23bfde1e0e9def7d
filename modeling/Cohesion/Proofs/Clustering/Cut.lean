/-
Cutting at one threshold and at two.

The loop with a stack that chooses the modules finds in each tree what a recursion over the tree
finds: the nodes above the threshold nearest to the root, and the units under no such node.  So the
modules are a partition of the units, whatever the threshold is.  A node that is above a greater
threshold is above the smaller one as well, so the cut at the greater threshold is got by cutting
each module of the other one again.

Main definitions:
* `Member.Partition` — lists of members into which a list of members is divided;
* `Cluster.chosen` — the clusters chosen in a tree, and `Module.choice`, what became a module;
* `Cut.IsPartition` — the modules are a partition of the units into nodes of a dendrogram.

Main results:
* `Cluster.choose_eq_flatMap` — the loop finds what the recursion finds;
* `Cluster.chosen_partition` — the clusters chosen are a partition of the members;
* `Cluster.chosen_flatMap_chosen` — choosing again at a greater threshold;
* `Dendrogram.cut_isPartition` — every cut is a partition of the units;
* `Dendrogram.cut_refines` — the cut at a greater threshold refines the cut at a smaller one.
-/
import Cohesion.Clustering.Cut
import Cohesion.Proofs.Clustering.TreeShape
import Cohesion.Proofs.Number.Order

set_option autoImplicit false

namespace Cohesion

/-! ### Partitions -/

/-- A list of members is divided into parts: none is empty, no two have a member in common, and
together they have all members. -/
structure Member.Partition (parts : List (List Member)) (whole : List Member) : Prop where
  /-- No part is empty. -/
  nonempty : ∀ part ∈ parts, part ≠ []
  /-- No two parts have a member in common. -/
  disjoint : parts.Pairwise List.Disjoint
  /-- The members are those of the parts. -/
  covers : ∀ a, a ∈ whole ↔ ∃ part ∈ parts, a ∈ part

theorem Member.Partition.of_perm {parts : List (List Member)} {whole : List Member}
    (hne : ∀ part ∈ parts, part ≠ []) (hperm : parts.flatten.Perm whole) (hnodup : whole.Nodup) :
    Member.Partition parts whole where
  nonempty := hne
  disjoint := (List.nodup_flatten.1 (hperm.nodup_iff.2 hnodup)).2
  covers a := by rw [← hperm.mem_iff, List.mem_flatten]

theorem length_le_length_flatten {α : Type} {parts : List (List α)}
    (hne : ∀ part ∈ parts, part ≠ []) : parts.length ≤ parts.flatten.length := by
  rw [List.length_flatten, ← List.length_map (f := List.length)]
  refine List.length_le_sum_of_one_le _ fun k hk => ?_
  obtain ⟨part, hpart, rfl⟩ := List.mem_map.1 hk
  exact List.length_pos_iff.2 (hne part hpart)

/-- A list that is mapped to the members of groups falls into such groups itself. -/
theorem exists_flatten_of_map_eq {α β : Type} {f : α → β} {xs : List α} {groups : List (List β)}
    (h : xs.map f = groups.flatten) :
    ∃ gs : List (List α), gs.flatten = xs ∧ gs.map (List.map f) = groups := by
  induction groups generalizing xs with
  | nil => exact ⟨[], (List.map_eq_nil_iff.1 h).symm, rfl⟩
  | cons group groups ih =>
      rw [List.flatten_cons, List.map_eq_append_iff] at h
      obtain ⟨front, back, rfl, hfront, hback⟩ := h
      obtain ⟨gs, hgs, hmap⟩ := ih hback
      exact ⟨front :: gs, by rw [List.flatten_cons, hgs], by rw [List.map_cons, hfront, hmap]⟩

/-! ### The clusters chosen in a tree -/

namespace Cluster

variable {m : CouplingMatrix} {t : Binary64}

/-- The clusters chosen in a tree at a threshold, with their cohesion. -/
def chosen (m : CouplingMatrix) (t : Binary64) : Cluster → List (Cluster × Binary64)
  | c@(leaf _ _) => [(c, .zero false)]
  | c@(merge _ _ left right _) =>
    if t.lt (m.averageInternalCoupling c) then [(c, m.averageInternalCoupling c)]
    else left.chosen m t ++ right.chosen m t

theorem chosen_leaf (i : Int) (ms : List Member) :
    (leaf i ms).chosen m t = [(leaf i ms, .zero false)] := rfl

theorem chosen_merge (i : Int) (ms : List Member) (l r : Cluster) (k : Binary64) :
    (merge i ms l r k).chosen m t =
      if t.lt (m.averageInternalCoupling (merge i ms l r k)) then
        [(merge i ms l r k, m.averageInternalCoupling (merge i ms l r k))]
      else l.chosen m t ++ r.chosen m t := rfl

/-- The loop chooses the clusters of each tree on the stack. -/
theorem choose_eq_flatMap (m : CouplingMatrix) (t : Binary64) (stack : List Cluster) :
    choose m t stack = stack.flatMap (chosen m t) := by
  induction stack using choose.induct m t with
  | case1 => rw [choose, List.flatMap_nil]
  | case2 i ms stack ih => rw [choose, ih, List.flatMap_cons, chosen_leaf, List.singleton_append]
  | case3 i ms l r k stack cohesion habove ih =>
      rw [choose, if_pos habove, ih, List.flatMap_cons, chosen_merge, if_pos habove,
        List.singleton_append]
  | case4 i ms l r k stack cohesion habove ih =>
      rw [choose, if_neg habove, ih, List.flatMap_cons, List.flatMap_cons, List.flatMap_cons,
        chosen_merge, if_neg habove, List.append_assoc]

/-- The clusters chosen are nodes of the tree. -/
theorem mem_preorder_of_mem_chosen {c : Cluster} {p : Cluster × Binary64}
    (hp : p ∈ c.chosen m t) : p.1 ∈ c.preorder := by
  induction c with
  | leaf i ms =>
      rw [List.mem_singleton.1 hp]
      exact self_mem_preorder _
  | merge i ms l r k ihl ihr =>
      rw [chosen_merge] at hp
      split at hp
      · rw [List.mem_singleton.1 hp]
        exact self_mem_preorder _
      · rcases List.mem_append.1 hp with hp | hp
        · exact mem_preorder_merge.2 (Or.inr (Or.inl (ihl hp)))
        · exact mem_preorder_merge.2 (Or.inr (Or.inr (ihr hp)))

theorem chosen_ne_nil (c : Cluster) : c.chosen m t ≠ [] := by
  induction c with
  | leaf i ms => exact List.cons_ne_nil _ _
  | merge i ms l r k ihl _ =>
      rw [chosen_merge]
      split
      · exact List.cons_ne_nil _ _
      · exact List.append_ne_nil_of_left_ne_nil ihl _

/-- The clusters chosen have the members of the tree. -/
theorem chosen_members_perm {c : Cluster} (hc : m.Linked c) (t : Binary64) :
    ((c.chosen m t).map (·.1.members)).flatten.Perm c.members := by
  induction hc with
  | leaf i => exact .of_eq (List.append_nil _)
  | @join i l r hl hr _ _ _ _ ihl ihr =>
      rw [join, chosen_merge]
      split
      · exact .of_eq (List.append_nil _)
      · rw [List.map_append, List.flatten_append]
        exact (ihl.append ihr).trans (Member.union_perm _ _).symm

/-- The clusters chosen in a linked tree are a partition of its members. -/
theorem chosen_partition {c : Cluster} (hc : m.Linked c) (t : Binary64) :
    Member.Partition ((c.chosen m t).map (·.1.members)) c.members := by
  refine .of_perm (fun part hpart => ?_) (chosen_members_perm hc t) hc.members_nodup
  obtain ⟨p, hp, rfl⟩ := List.mem_map.1 hpart
  exact (hc.of_mem_preorder (mem_preorder_of_mem_chosen hp)).members_ne_nil

/-- Choosing at a greater threshold is choosing again in each cluster that was chosen. -/
theorem chosen_flatMap_chosen {t₁ t₂ : Binary64} (hle : t₁.le t₂ = true) (c : Cluster) :
    (c.chosen m t₁).flatMap (fun p => p.1.chosen m t₂) = c.chosen m t₂ := by
  induction c with
  | leaf i ms => exact List.append_nil _
  | merge i ms l r k ihl ihr =>
      rw [chosen_merge]
      split
      · exact List.append_nil _
      · rename_i hbelow
        -- what is not above the smaller threshold is not above the greater one
        have hbelow' : ¬t₂.lt (m.averageInternalCoupling (merge i ms l r k)) = true :=
          fun habove => hbelow (Binary64.lt_of_le_of_lt hle habove)
        rw [List.flatMap_append, ihl, ihr, chosen_merge, if_neg hbelow']

end Cluster

/-! ### The modules of a cut -/

/-- The cluster of a module and its cohesion, as they were chosen. -/
def Module.choice (M : Module) : Cluster × Binary64 := (M.cluster, M.cohesion)

/-- The modules are a partition of the units, by sameness of units, into nodes of the
dendrogram. -/
structure Cut.IsPartition (c : Cut) (units : List CodeUnit) (d : Dendrogram) : Prop where
  /-- Together the modules list each unit once. -/
  units_perm : (c.modules.flatMap Module.units).Perm units
  /-- Each unit is in exactly one module. -/
  exactly_one : ∀ u ∈ units, ∃! M, M ∈ c.modules ∧ ∃ v ∈ M.units, v.same u = true
  /-- No module is empty. -/
  nonempty : ∀ M ∈ c.modules, M.units ≠ []
  /-- The modules are nodes of the dendrogram. -/
  nodes : ∀ M ∈ c.modules, M.cluster ∈ d.nodes
  /-- The modules are numbered from one. -/
  numbers : c.modules.map Module.number = List.range' 1 c.modules.length
  /-- There is at least one module. -/
  pos : 1 ≤ c.modules.length
  /-- There are no more modules than units. -/
  le : c.modules.length ≤ units.length

/-- A unit that is different from all other units is in one of the modules that list each unit
once. -/
theorem existsUnique_module {units : List CodeUnit} {modules : List Module} {u : CodeUnit}
    (hunits : units.Pairwise fun u v => u.same v = false)
    (hperm : (modules.flatMap Module.units).Perm units) (hu : u ∈ units) :
    ∃! M, M ∈ modules ∧ ∃ v ∈ M.units, v.same u = true := by
  have hnodup := CodeUnit.nodup_of_pairwise hunits
  obtain ⟨M, hM, huM⟩ := List.mem_flatMap.1 (hperm.mem_iff.2 hu)
  refine ⟨M, ⟨hM, u, huM, CodeUnit.same_iff.2 rfl⟩, ?_⟩
  rintro N ⟨hN, v, hvN, hsame⟩
  have hv : v ∈ units := hperm.mem_iff.1 (List.mem_flatMap.2 ⟨N, hN, hvN⟩)
  have hvu : v = u := by
    by_contra hne
    have hsymm : Std.Symm fun v w : CodeUnit => v.same w = false :=
      ⟨fun v w h => by rwa [CodeUnit.same, Bool.beq_comm]⟩
    rw [hunits.forall hv hu hne] at hsame
    cases hsame
  exact eq_of_mem_flatMap (hperm.nodup_iff.2 hnodup) hN hM (hvu ▸ hvN) huM

namespace Dendrogram

variable {m : CouplingMatrix} {d : Dendrogram} {root : Cluster}

theorem cut_modules_of_no_root (h : d.root? = none) (t : Binary64) :
    (d.cut m t).modules = [] := by
  simp [cut, h]

theorem cut_modules (h : d.root? = some root) (t : Binary64) : (d.cut m t).modules =
    (root.chosen m t).mapIdx fun i p => ⟨i + 1, p.1, p.2⟩ := by
  simp [cut, h, Cluster.choose_eq_flatMap]

/-- The modules are the clusters chosen under the root. -/
theorem map_cut_modules (h : d.root? = some root) (t : Binary64) :
    (d.cut m t).modules.map Module.choice = root.chosen m t := by
  rw [cut_modules h]
  exact List.ext_getElem (by simp) fun i h₁ h₂ => by simp [Module.choice]

theorem mem_preorder_of_mem_cut (h : d.root? = some root) {t : Binary64} {M : Module}
    (hM : M ∈ (d.cut m t).modules) : M.cluster ∈ root.preorder := by
  have hp := List.mem_map_of_mem (f := Module.choice) hM
  rw [map_cut_modules h] at hp
  exact Cluster.mem_preorder_of_mem_chosen hp

theorem map_cut_members (h : d.root? = some root) (t : Binary64) :
    ((d.cut m t).modules.map fun M => M.cluster.members) =
      (root.chosen m t).map (·.1.members) := by
  rw [← map_cut_modules h, List.map_map]
  rfl

/-- The modules are numbered from one. -/
theorem cut_numbers (d : Dendrogram) (m : CouplingMatrix) (t : Binary64) :
    (d.cut m t).modules.map Module.number = List.range' 1 (d.cut m t).modules.length := by
  cases hroot : d.root? with
  | none => rw [cut_modules_of_no_root hroot, List.map_nil, List.length_nil, List.range'_zero]
  | some root =>
      rw [cut_modules hroot]
      refine List.ext_getElem (by simp) fun i h₁ h₂ => ?_
      simp [Nat.add_comm]

theorem root?_eq_none (hn : m.units.size < 2) : (ofMatrix m).root? = none := by
  rw [root?, merges_eq_nil hn, List.getLast?_nil]

theorem unitCount_ofMatrix (m : CouplingMatrix) : (ofMatrix m).unitCount = m.units.size := by
  simp [unitCount, ofMatrix]

/-! ### Every cut is a partition -/

theorem isPartition_cut (hm : m.Bounded) (hn : 2 ≤ m.units.size)
    (hunits : m.units.toList.Pairwise fun u v => u.same v = false) (t : Binary64) :
    ((ofMatrix m).cut m t).IsPartition m.units.toList (ofMatrix m) := by
  obtain ⟨root, hroot, hlinked, hmembers, hnodes⟩ := exists_root hm hn
  have hchosen : ∀ M ∈ ((ofMatrix m).cut m t).modules, M.cluster ∈ root.preorder :=
    fun M hM => mem_preorder_of_mem_cut hroot hM
  have hnonempty : ∀ M ∈ ((ofMatrix m).cut m t).modules, M.units ≠ [] := fun M hM hnil =>
    (hlinked.of_mem_preorder (hchosen M hM)).members_ne_nil (List.map_eq_nil_iff.1 hnil)
  have hperm : (((ofMatrix m).cut m t).modules.flatMap Module.units).Perm m.units.toList := by
    have h := (Cluster.chosen_members_perm hlinked t).map Member.unit
    rw [← map_cut_members hroot, hmembers, CouplingMatrix.members_units, List.map_flatten,
      List.map_map] at h
    exact h
  constructor
  case units_perm => exact hperm
  case exactly_one => exact fun u hu => existsUnique_module hunits hperm hu
  case nonempty => exact hnonempty
  case nodes => exact fun M hM => hnodes.mem_iff.1 (hchosen M hM)
  case numbers => exact cut_numbers _ m t
  case pos =>
    have hlen := congrArg List.length (map_cut_modules (m := m) hroot t)
    rw [List.length_map] at hlen
    rw [hlen]
    exact List.length_pos_iff.2 (Cluster.chosen_ne_nil root)
  case le =>
    have hle := length_le_length_flatten (List.forall_mem_map.2 hnonempty)
    rw [List.length_map, ← List.flatMap_def, hperm.length_eq] at hle
    exact hle

/-- **Every cut is a partition of the units**: whatever the threshold is, not-a-number and the
infinities included, the modules of an accepted call graph of at least two units whose counts sum
to less than `2 ^ 63` are a partition of the units into nodes of the dendrogram.  Fewer units have
no modules. -/
theorem cut_isPartition {g : CallGraph} (hgraph : CouplingMatrix.ofGraph g = .ok m)
    (t : Binary64) :
    (2 ≤ g.units.length → g.total < 2 ^ 63 →
      ((ofMatrix m).cut m t).IsPartition g.units (ofMatrix m)) ∧
    (g.units.length < 2 →
      ((ofMatrix m).cut m t).modules = [] ∧ ((ofMatrix m).cut m t).isInsufficient = true) := by
  have hsize := CouplingMatrix.size_of_build hgraph
  constructor
  · intro hn hsum
    have hlist : m.units.toList = g.units := by
      rw [(CouplingMatrix.exists_of_build_eq_ok hgraph).2.1, List.toList_toArray]
    have hunits := CouplingMatrix.pairwise_of_build hgraph
    rw [← hlist] at hunits ⊢
    exact isPartition_cut (CouplingMatrix.bounded_of_build hgraph hsum) (by omega) hunits t
  · intro hn
    refine ⟨cut_modules_of_no_root (root?_eq_none (by omega)) t, ?_⟩
    have hcount : ((ofMatrix m).cut m t).unitCount = m.units.size := unitCount_ofMatrix m
    rw [Cut.isInsufficient, hcount]
    exact decide_eq_true (by omega)

/-- Nothing is above a threshold that is not a number. -/
theorem cut_isPartition_square : ∃ m : CouplingMatrix,
    CouplingMatrix.ofGraph .square = .ok m ∧
      ((ofMatrix m).cut m .nan).IsPartition CallGraph.square.units (ofMatrix m) := by
  obtain ⟨m, hm⟩ := CouplingMatrix.exists_ofGraph_square
  exact ⟨m, hm, (cut_isPartition hm .nan).1 (by decide) (by decide)⟩

/-! ### A greater threshold -/

theorem ne_nil_of_map_choice {c : Cluster} {t : Binary64} {group : List Module}
    (h : group.map Module.choice = c.chosen m t) : group ≠ [] := by
  intro hnil
  rw [hnil] at h
  exact Cluster.chosen_ne_nil c h.symm

/-- The modules at a greater threshold, grouped by the modules at a smaller one: each group is
what is chosen in its module. -/
theorem exists_groups (hroot : d.root? = some root) {t₁ t₂ : Binary64} (hle : t₁.le t₂ = true) :
    ∃ groups : List (List Module), groups.flatten = (d.cut m t₂).modules ∧
      (∀ group ∈ groups, group ≠ []) ∧
      List.Forall₂ (fun M group => group.map Module.choice = M.cluster.chosen m t₂)
        (d.cut m t₁).modules groups := by
  have hagain := Cluster.chosen_flatMap_chosen (m := m) hle root
  rw [← map_cut_modules hroot t₁, ← map_cut_modules hroot t₂, List.flatMap_def,
    List.map_map] at hagain
  obtain ⟨groups, hflatten, hmap⟩ := exists_flatten_of_map_eq hagain.symm
  refine ⟨groups, hflatten, fun group hgroup => ?_, ?_⟩
  · have hmem := List.mem_map_of_mem (f := List.map Module.choice) hgroup
    rw [hmap] at hmem
    obtain ⟨M, -, hM⟩ := List.mem_map.1 hmem
    exact ne_nil_of_map_choice hM.symm
  · -- the group at a place was mapped to what is chosen in the module at the same place
    have hsame : List.Forall₂ Eq (groups.map (List.map Module.choice))
        ((d.cut m t₁).modules.map fun M => M.cluster.chosen m t₂) := by
      rw [List.forall₂_eq_eq_eq, hmap]
      rfl
    rw [List.forall₂_map_left_iff, List.forall₂_map_right_iff] at hsame
    exact hsame.flip

/-- **A greater threshold cuts the modules further**: for accepted calls whose counts sum to less
than `2 ^ 63`, the modules at the greater one of two thresholds are the modules at the smaller one,
each replaced in its place by one or more modules that are a partition of its members. -/
theorem cut_refines {units : List CodeUnit} {calls : List Call}
    (hbuild : CouplingMatrix.build units calls = .ok m)
    (hsum : sumOf (calls.map (·.count)) < 2 ^ 63) {t₁ t₂ : Binary64} (hle : t₁.le t₂ = true) :
    (∃ groups : List (List Module), groups.flatten = ((ofMatrix m).cut m t₂).modules ∧
      List.Forall₂ (fun M group => group ≠ [] ∧
          Member.Partition (group.map fun N => N.cluster.members) M.cluster.members)
        ((ofMatrix m).cut m t₁).modules groups) ∧
    ((ofMatrix m).cut m t₁).modules.length ≤ ((ofMatrix m).cut m t₂).modules.length := by
  by_cases hn : 2 ≤ m.units.size
  · have hm := CouplingMatrix.bounded_of_build hbuild hsum
    obtain ⟨root, hroot, hlinked, -, -⟩ := exists_root hm hn
    obtain ⟨groups, hflatten, hne, hgroups⟩ := exists_groups (m := m) hroot hle
    have hmodules : ∀ M ∈ ((ofMatrix m).cut m t₁).modules, m.Linked M.cluster :=
      fun M hM => hlinked.of_mem_preorder (mem_preorder_of_mem_cut hroot hM)
    have hparts := (List.forall₂_and_left _ _).2 ⟨hmodules, hgroups⟩
    refine ⟨⟨groups, hflatten, hparts.imp ?_⟩, ?_⟩
    · rintro M group ⟨hM, hgroup⟩
      have hmembers : (group.map fun N => N.cluster.members) =
          (M.cluster.chosen m t₂).map (·.1.members) := by
        rw [← hgroup, List.map_map]
        rfl
      exact ⟨ne_nil_of_map_choice hgroup, hmembers ▸ Cluster.chosen_partition hM t₂⟩
    · rw [← hflatten, hgroups.length_eq]
      exact length_le_length_flatten hne
  · have hnone := root?_eq_none (m := m) (by omega)
    rw [cut_modules_of_no_root hnone, cut_modules_of_no_root hnone]
    exact ⟨⟨[], rfl, .nil⟩, le_rfl⟩

/-- From a single module to a module for each unit. -/
theorem cut_refines_square : ∃ m : CouplingMatrix,
    CouplingMatrix.build CallGraph.square.units CallGraph.square.calls = .ok m ∧
      ∃ groups : List (List Module),
        groups.flatten = ((ofMatrix m).cut m (.infinite false)).modules ∧
        List.Forall₂ (fun M group => group ≠ [] ∧
            Member.Partition (group.map fun N => N.cluster.members) M.cluster.members)
          ((ofMatrix m).cut m (.infinite true)).modules groups := by
  obtain ⟨m, hm⟩ := CouplingMatrix.exists_ofGraph_square
  exact ⟨m, hm, (cut_refines hm (by decide) (by decide)).1⟩

end Dendrogram

end Cohesion
