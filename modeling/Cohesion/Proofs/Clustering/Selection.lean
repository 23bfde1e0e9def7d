/-
Which nodes become modules.

A node is a module when it may be one, as a single unit or because it is above the threshold, and
when nothing above it in the tree is above the threshold.  The loop with a stack never looks at
ancestors: it gives up a tree for its two children, so all ancestors of what it still has to look at
are known to be below the threshold, and what is below a module is never looked at.

Main definitions:
* `Cluster.Selected` — what makes a node a module;
* `CouplingMatrix.cohesion` — the cohesion of a node as a module.

Main results:
* `CouplingMatrix.Linked.filter_selected_join` — what is selected in a joined tree is selected in one
  of its children, unless the tree itself is above the threshold;
* `CouplingMatrix.Linked.chosen_eq_filter` — the clusters chosen in a tree are the selected ones;
* `Dendrogram.cut_eq_filter_walk` — **the modules are the selected nodes, in the order of the walk**.
-/
import Cohesion.Proofs.Clustering.Accounting
import Cohesion.Proofs.Clustering.Cut

set_option autoImplicit false

namespace Cohesion

/-! ### Selected nodes -/

namespace Cluster

theorem nodeCount_lt_of_mem_children {c child : Cluster} (h : child ∈ c.children) :
    child.nodeCount < c.nodeCount := by
  cases c with
  | leaf i ms => cases h
  | merge i ms l r k =>
      rw [nodeCount]
      rcases List.mem_pair.1 h with rfl | rfl <;> omega

/-- The trees below a node are smaller. -/
theorem nodeCount_lt_of_below {c d : Cluster} (h : d.Below c) : d.nodeCount < c.nodeCount := by
  induction h with
  | single h => exact nodeCount_lt_of_mem_children h
  | tail _ h ih => exact ih.trans (nodeCount_lt_of_mem_children h)

theorem not_below_self (c : Cluster) : ¬c.Below c :=
  fun h => lt_irrefl _ (nodeCount_lt_of_below h)

instance (c d : Cluster) : Decidable (c.Below d) := decidable_of_iff _ below_iff.symm

/-- A node is selected among the nodes of a tree: it is a single unit or above the threshold, and no
node that it is below is above the threshold. -/
def Selected (m : CouplingMatrix) (t : Binary64) (nodes : List Cluster) (c : Cluster) : Prop :=
  (c.isLeaf = true ∨ t.lt (m.averageInternalCoupling c) = true) ∧
    ∀ a ∈ nodes, c.Below a → ¬t.lt (m.averageInternalCoupling a) = true

instance (m : CouplingMatrix) (t : Binary64) (nodes : List Cluster) (c : Cluster) :
    Decidable (c.Selected m t nodes) :=
  inferInstanceAs (Decidable (_ ∧ _))

section

variable {m : CouplingMatrix} {t : Binary64} {nodes : List Cluster} {c : Cluster}

/-- More nodes change nothing when what is new above a node is not above the threshold. -/
theorem selected_iff_of_subset {nodes' : List Cluster} (hsub : nodes ⊆ nodes')
    (hnew : ∀ a ∈ nodes', c.Below a → a ∈ nodes ∨ ¬t.lt (m.averageInternalCoupling a) = true) :
    c.Selected m t nodes' ↔ c.Selected m t nodes := by
  refine and_congr_right fun _ => ⟨fun h a ha => h a (hsub ha), fun h a ha hbelow => ?_⟩
  rcases hnew a ha hbelow with ha | hnot
  · exact h a ha hbelow
  · exact hnot

/-- The root of a tree has no ancestors. -/
theorem selected_root_iff : c.Selected m t c.preorder ↔
    c.isLeaf = true ∨ t.lt (m.averageInternalCoupling c) = true := by
  refine and_iff_left fun a ha hbelow => ?_
  rcases mem_preorder_iff_eq_or_below.1 ha with rfl | habove
  · exact absurd hbelow (not_below_self a)
  · exact absurd (hbelow.trans habove) (not_below_self c)

theorem exists_preorder_eq_cons (c : Cluster) :
    ∃ rest, c.preorder = c :: rest ∧ ∀ d ∈ rest, d.Below c := by
  cases c with
  | leaf i ms => exact ⟨[], rfl, fun d hd => by cases hd⟩
  | merge i ms l r k =>
      refine ⟨l.preorder ++ r.preorder, rfl, fun d hd => ?_⟩
      rcases List.mem_append.1 hd with hd | hd
      · exact below_iff.2 ⟨l, List.mem_cons_self, hd⟩
      · exact below_iff.2 ⟨r, List.mem_cons_of_mem _ List.mem_cons_self, hd⟩

/-- A tree that may be a module is the only selected node of itself. -/
theorem filter_selected_of_accepted
    (hc : c.isLeaf = true ∨ t.lt (m.averageInternalCoupling c) = true) :
    (c.preorder.filter fun d => d.Selected m t c.preorder) = [c] := by
  obtain ⟨rest, hrest, hbelow⟩ := c.exists_preorder_eq_cons
  have hroot := (selected_root_iff (m := m) (t := t)).2 hc
  have hnone : ∀ d ∈ rest, ¬d.Selected m t c.preorder := by
    intro d hd hselected
    obtain ⟨child, hchild, -⟩ := below_iff.1 (hbelow d hd)
    have habove : t.lt (m.averageInternalCoupling c) = true := by
      refine hc.resolve_left fun hleaf => ?_
      cases c with
      | leaf i ms => cases hchild
      | merge i ms l r k => cases hleaf
    exact hselected.2 c (self_mem_preorder c) (hbelow d hd) habove
  refine (congrArg (List.filter _) hrest).trans ?_
  rw [List.filter_cons_of_pos (by simpa using hroot),
    List.filter_eq_nil_iff.2 fun d hd => by simpa using hnone d hd]

end

end Cluster

namespace CouplingMatrix

/-- The cohesion of a node as a module: its average internal coupling, zero for a single unit. -/
def cohesion (m : CouplingMatrix) (c : Cluster) : Binary64 :=
  if c.isLeaf then .zero false else m.averageInternalCoupling c

variable {m : CouplingMatrix} {t : Binary64}

namespace Linked

variable {l r c : Cluster}

/-- Trees without a common position have no common node. -/
theorem notMem_preorder (hl : m.Linked l) (hr : m.Linked r)
    (hdisj : l.indices.Disjoint r.indices) (hc : c ∈ l.preorder) : c ∉ r.preorder := by
  intro hc'
  have hne : c.indices ≠ [] :=
    fun hnil => (hl.of_mem_preorder hc).members_ne_nil (List.map_eq_nil_iff.1 hnil)
  obtain ⟨i, hi⟩ := List.exists_mem_of_ne_nil _ hne
  exact hdisj (hl.indices_subset hc hi) (hr.indices_subset hc' hi)

/-- In a tree that is not above the threshold, selection among all nodes is selection among the
nodes of the child. -/
theorem selected_child_iff {child other : Cluster} (hchild : m.Linked child)
    (hother : m.Linked other) (hdisj : child.indices.Disjoint other.indices)
    {nodes : List Cluster} {root : Cluster}
    (hnodes : ∀ a, a ∈ nodes ↔ a = root ∨ a ∈ child.preorder ∨ a ∈ other.preorder)
    (hroot : ¬t.lt (m.averageInternalCoupling root) = true) (hc : c ∈ child.preorder) :
    c.Selected m t nodes ↔ c.Selected m t child.preorder := by
  refine Cluster.selected_iff_of_subset (fun a ha => (hnodes a).2 (Or.inr (Or.inl ha))) ?_
  intro a ha hbelow
  rcases (hnodes a).1 ha with rfl | ha | ha
  · exact Or.inr hroot
  · exact Or.inl ha
  · -- what is below a node of the other child is a node of the other child
    have hmem : c ∈ other.preorder :=
      (Cluster.isInfix_preorder ha).subset (Cluster.mem_preorder_iff_eq_or_below.2 (Or.inr hbelow))
    exact absurd hmem (hchild.notMem_preorder hother hdisj hc)

/-- What is selected in a tree that is not above the threshold is selected in one of its children. -/
theorem filter_selected_join {i : Int} {k : Binary64} (hl : m.Linked l) (hr : m.Linked r)
    (hdisj : l.indices.Disjoint r.indices)
    (hroot : ¬t.lt (m.averageInternalCoupling (Cluster.join i l r k)) = true) :
    ((Cluster.join i l r k).preorder.filter fun d =>
        d.Selected m t (Cluster.join i l r k).preorder) =
      (l.preorder.filter fun d => d.Selected m t l.preorder) ++
        (r.preorder.filter fun d => d.Selected m t r.preorder) := by
  have hnodes : ∀ a, a ∈ (Cluster.join i l r k).preorder ↔
      a = Cluster.join i l r k ∨ a ∈ l.preorder ∨ a ∈ r.preorder :=
    fun a => Cluster.mem_preorder_merge
  have hself : ¬(Cluster.join i l r k).Selected m t (Cluster.join i l r k).preorder :=
    fun h => hroot ((Cluster.selected_root_iff.1 h).resolve_left Bool.false_ne_true)
  have hleft : ∀ d ∈ l.preorder, d.Selected m t (Cluster.join i l r k).preorder ↔
      d.Selected m t l.preorder :=
    fun d hd => hl.selected_child_iff hr hdisj hnodes hroot hd
  have hright : ∀ d ∈ r.preorder, d.Selected m t (Cluster.join i l r k).preorder ↔
      d.Selected m t r.preorder :=
    fun d hd => hr.selected_child_iff hl hdisj.symm
      (fun a => (hnodes a).trans (or_congr_right or_comm)) hroot hd
  have hpreorder : (Cluster.join i l r k).preorder =
      Cluster.join i l r k :: (l.preorder ++ r.preorder) := rfl
  refine (congrArg (List.filter _) hpreorder).trans ?_
  rw [List.filter_cons_of_neg (by simpa using hself), List.filter_append,
    List.filter_congr fun d hd => decide_eq_decide.2 (hleft d hd),
    List.filter_congr fun d hd => decide_eq_decide.2 (hright d hd)]

/-- **The clusters chosen in a linked tree are its selected nodes**, in pre-order. -/
theorem chosen_eq_filter (hc : m.Linked c) (t : Binary64) :
    c.chosen m t = (c.preorder.filter fun d => d.Selected m t c.preorder).map
      fun d => (d, m.cohesion d) := by
  induction hc with
  | leaf i =>
      rw [Cluster.filter_selected_of_accepted (Or.inl rfl)]
      rfl
  | @join i l r hl hr _ _ hdisj _ ihl ihr =>
      rw [Cluster.join, Cluster.chosen_merge, ← Cluster.join]
      split
      · rename_i habove
        rw [Cluster.filter_selected_of_accepted (Or.inr habove)]
        rfl
      · rename_i hbelow
        rw [filter_selected_join hl hr hdisj hbelow, List.map_append, ihl, ihr]

end Linked

end CouplingMatrix

/-! ### The modules of a cut -/

namespace Dendrogram

variable {m : CouplingMatrix}

/-- **The modules are the selected nodes**: for an accepted call graph whose counts sum to less than
`2 ^ 63` and every threshold, the modules are the nodes that are a single unit or above the
threshold and have nothing above the threshold above them, in the order of the walk, each with its
average internal coupling as its cohesion, and zero for a single unit. -/
theorem cut_eq_filter_walk {g : CallGraph} (hgraph : CouplingMatrix.ofGraph g = .ok m)
    (hsum : g.total < 2 ^ 63) (t : Binary64) :
    ((ofMatrix m).cut m t).modules.map Module.choice =
      ((ofMatrix m).walk.filter fun c => c.Selected m t (ofMatrix m).walk).map
        fun c => (c, m.cohesion c) := by
  by_cases hn : 2 ≤ m.units.size
  · obtain ⟨root, hroot, hlinked, -, -⟩ :=
      exists_root (CouplingMatrix.bounded_of_build hgraph hsum) hn
    have hwalk : (ofMatrix m).walk = root.preorder := walk_eq_preorder hroot
    rw [map_cut_modules hroot, hwalk, hlinked.chosen_eq_filter]
  · have hnone := root?_eq_none (m := m) (by omega)
    have hwalk : (ofMatrix m).walk = [] := by rw [walk, hnone]
    rw [cut_modules_of_no_root hnone, hwalk]
    rfl

/-- The two pairs of the square are above a quarter, and the root is not. -/
theorem cut_eq_filter_walk_square : ∃ m : CouplingMatrix,
    CouplingMatrix.ofGraph .square = .ok m ∧
      ((ofMatrix m).cut m (.ratio 1 4)).modules.map Module.choice =
        ((ofMatrix m).walk.filter fun c => c.Selected m (.ratio 1 4) (ofMatrix m).walk).map
          (fun c => (c, m.cohesion c)) ∧
      ((ofMatrix m).cut m (.ratio 1 4)).modules.map (fun M => M.cluster.indices) =
        [[0, 2], [1, 3]] := by
  obtain ⟨m, hm, hcut⟩ : ∃ m : CouplingMatrix, CouplingMatrix.ofGraph .square = .ok m ∧
      ((ofMatrix m).cut m (.ratio 1 4)).modules.map (fun M => M.cluster.indices) =
        [[0, 2], [1, 3]] :=
    ⟨_, by with_unfolding_all rfl, by with_unfolding_all decide +kernel⟩
  exact ⟨m, hm, cut_eq_filter_walk hm (by decide) (.ratio 1 4), hcut⟩

end Dendrogram

end Cohesion
