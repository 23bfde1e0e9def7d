/-
Clusters as trees.

A cluster is joined from two others by sorting their members together; nothing is lost or added.
Its nodes in pre-order are the nodes that a walk with a stack meets, and every node but the first
is listed once among the children of the nodes.

Main definitions:
* `Cluster.least` — the smallest position of a cluster;
* `Cluster.children`, `Cluster.Below` — the children of a node, and what lies below it;
* `Cluster.preorder` — all nodes, each before its children, the left child's first;
* `CouplingMatrix.Linked` — the trees that are made by joining disjoint clusters of a matrix.

Main results:
* `Member.union_perm`, `Member.union_sorted` — the members of a joined cluster;
* `Cluster.visit_eq_flatMap` — a walk with a stack meets the nodes in pre-order;
* `Cluster.mem_preorder_iff`, `Cluster.below_iff` — the nodes of a tree, and those below a node;
* `Cluster.preorder_perm_cons_children` — the nodes of a tree are its root and all children;
* `Cluster.sublist_preorder_of_below`, `Cluster.sublist_preorder_of_children` — the order of the
  nodes;
* `CouplingMatrix.Linked.sorted`, `CouplingMatrix.Linked.members_subset` — the members of a linked
  tree are members of the matrix in ascending order.
-/
import Cohesion.Clustering.Linkage
import Cohesion.Proofs.Coupling.Weights
import Mathlib.Data.List.Sort
import Mathlib.Logic.Relation

set_option autoImplicit false

namespace Cohesion

/-! ### Members -/

namespace Member

instance : Std.Total fun a b : Member => a.index ≤ b.index :=
  ⟨fun a b => Int.le_total a.index b.index⟩

instance : IsTrans Member fun a b => a.index ≤ b.index :=
  ⟨fun _ _ _ => Int.le_trans⟩

theorem insert_eq_orderedInsert (a : Member) (ms : List Member) :
    insert a ms = ms.orderedInsert (fun a b => a.index ≤ b.index) a := by
  induction ms with
  | nil => rfl
  | cons b ms ih => rw [insert, List.orderedInsert_cons, ih]

theorem union_eq_insertionSort (left right : List Member) :
    union left right = (left ++ right).insertionSort fun a b => a.index ≤ b.index := by
  have hinsert : insert = List.orderedInsert fun a b : Member => a.index ≤ b.index :=
    funext fun a => funext fun ms => insert_eq_orderedInsert a ms
  rw [union, hinsert, List.insertionSort]

/-- The union has the members of both lists. -/
theorem union_perm (left right : List Member) : (union left right).Perm (left ++ right) := by
  rw [union_eq_insertionSort]
  exact List.perm_insertionSort _ _

/-- The union is sorted by position. -/
theorem union_sorted (left right : List Member) :
    (union left right).Pairwise fun a b => a.index ≤ b.index := by
  rw [union_eq_insertionSort]
  exact List.pairwise_insertionSort _ _

end Member

namespace Cluster

/-! ### Positions -/

/-- The smallest position of a cluster. -/
def least (c : Cluster) : Int := c.indices.min?.getD 0

theorem least_eq_of_min? {c : Cluster} {i : Int} (h : c.indices.min? = some i) : c.least = i := by
  rw [least, h, Option.getD_some]

@[simp] theorem members_join (i : Int) (l r : Cluster) (k : Binary64) :
    (join i l r k).members = Member.union l.members r.members := rfl

theorem indices_join_perm (i : Int) (l r : Cluster) (k : Binary64) :
    (join i l r k).indices.Perm (l.indices ++ r.indices) := by
  have h := (Member.union_perm l.members r.members).map (·.index)
  rwa [List.map_append] at h

theorem mem_indices_join {i a : Int} {l r : Cluster} {k : Binary64} :
    a ∈ (join i l r k).indices ↔ a ∈ l.indices ∨ a ∈ r.indices := by
  rw [(indices_join_perm i l r k).mem_iff, List.mem_append]

/-- The smallest position of a joined cluster is that of the child that has the smaller one. -/
theorem min?_indices_join {i a b : Int} {l r : Cluster} {k : Binary64}
    (hl : l.indices.min? = some a) (hr : r.indices.min? = some b) (hab : a < b) :
    (join i l r k).indices.min? = some a := by
  rw [List.min?_eq_some_iff] at hl hr ⊢
  refine ⟨mem_indices_join.2 (Or.inl hl.1), fun c hc => ?_⟩
  rcases mem_indices_join.1 hc with hc | hc
  · exact hl.2 c hc
  · exact hab.le.trans (hr.2 c hc)

/-! ### Nodes -/

/-- The children of a node. -/
def children : Cluster → List Cluster
  | leaf _ _ => []
  | merge _ _ left right _ => [left, right]

/-- A node lies below another one: it is a child of it, or of a node below it. -/
def Below : Cluster → Cluster → Prop :=
  Relation.TransGen fun child parent => child ∈ parent.children

/-- All nodes of the tree: each before its children, the left child's first. -/
def preorder : Cluster → List Cluster
  | c@(leaf _ _) => [c]
  | c@(merge _ _ left right _) => c :: (left.preorder ++ right.preorder)

theorem preorder_merge (i : Int) (ms : List Member) (l r : Cluster) (k : Binary64) :
    (merge i ms l r k).preorder = merge i ms l r k :: (l.preorder ++ r.preorder) := rfl

/-- A walk with a stack meets the nodes of each cluster on it in pre-order. -/
theorem visit_eq_flatMap (stack : List Cluster) : visit stack = stack.flatMap preorder := by
  induction stack using visit.induct with
  | case1 => rw [visit, List.flatMap_nil]
  | case2 i ms stack ih => rw [visit, ih, List.flatMap_cons, preorder, List.singleton_append]
  | case3 i ms l r k stack ih =>
      rw [visit, ih, List.flatMap_cons, List.flatMap_cons, List.flatMap_cons, preorder_merge,
        List.cons_append, List.append_assoc]

theorem self_mem_preorder (c : Cluster) : c ∈ c.preorder := by
  cases c <;> exact List.mem_cons_self

theorem mem_preorder_merge {c : Cluster} {i : Int} {ms : List Member} {l r : Cluster}
    {k : Binary64} : c ∈ (merge i ms l r k).preorder ↔
      c = merge i ms l r k ∨ c ∈ l.preorder ∨ c ∈ r.preorder := by
  rw [preorder_merge, List.mem_cons, List.mem_append]

/-- The children of a node of a tree are nodes of it. -/
theorem mem_preorder_of_mem_children {t c child : Cluster} (hc : c ∈ t.preorder)
    (hchild : child ∈ c.children) : child ∈ t.preorder := by
  induction t with
  | leaf i ms =>
      obtain rfl := List.mem_singleton.1 hc
      cases hchild
  | merge i ms l r k ihl ihr =>
      rw [mem_preorder_merge] at hc ⊢
      rcases hc with rfl | hc | hc
      · rcases List.mem_pair.1 hchild with rfl | rfl
        · exact Or.inr (Or.inl (self_mem_preorder child))
        · exact Or.inr (Or.inr (self_mem_preorder child))
      · exact Or.inr (Or.inl (ihl hc))
      · exact Or.inr (Or.inr (ihr hc))

/-- The nodes of a tree are those from which a chain of parents leads to its root. -/
theorem mem_preorder_iff {t c : Cluster} :
    c ∈ t.preorder ↔ Relation.ReflTransGen (fun child parent => child ∈ parent.children) c t := by
  constructor
  · intro h
    induction t with
    | leaf i ms =>
        obtain rfl := List.mem_singleton.1 h
        exact .refl
    | merge i ms l r k ihl ihr =>
        rcases mem_preorder_merge.1 h with rfl | h | h
        · exact .refl
        · exact (ihl h).tail (List.mem_cons_self ..)
        · exact (ihr h).tail (List.mem_cons_of_mem _ (List.mem_cons_self ..))
  · intro h
    -- induction along the chain of parents, from the root downwards
    induction h using Relation.ReflTransGen.head_induction_on with
    | refl => exact self_mem_preorder t
    | head h _ ih => exact mem_preorder_of_mem_children ih h

/-- What lies below a node are the nodes of the trees of its children. -/
theorem below_iff {c t : Cluster} : c.Below t ↔ ∃ child ∈ t.children, c ∈ child.preorder := by
  rw [Below, Relation.TransGen.tail'_iff]
  constructor
  · rintro ⟨child, hc, hchild⟩
    exact ⟨child, hchild, mem_preorder_iff.2 hc⟩
  · rintro ⟨child, hchild, hc⟩
    exact ⟨child, mem_preorder_iff.1 hc, hchild⟩

theorem mem_preorder_iff_eq_or_below {t c : Cluster} : c ∈ t.preorder ↔ c = t ∨ c.Below t := by
  rw [mem_preorder_iff, Relation.reflTransGen_iff_eq_or_transGen, eq_comm, Below]

/-- The nodes of a tree are its root and the children of its nodes. -/
theorem preorder_perm_cons_children (t : Cluster) :
    t.preorder.Perm (t :: t.preorder.flatMap children) := by
  induction t with
  | leaf i ms => exact .refl _
  | merge i ms l r k ihl ihr =>
      have hboth : (l.preorder ++ r.preorder).Perm
          (l :: (l.preorder.flatMap children ++ r :: r.preorder.flatMap children)) :=
        ihl.append ihr
      rw [preorder_merge, List.flatMap_cons, List.flatMap_append]
      exact (hboth.trans (List.perm_middle.cons l)).cons _

/-! ### The order of the nodes -/

/-- The nodes of the tree under a node stand together, in pre-order. -/
theorem isInfix_preorder {t c : Cluster} (h : c ∈ t.preorder) : c.preorder <:+: t.preorder := by
  induction t with
  | leaf i ms =>
      obtain rfl := List.mem_singleton.1 h
      exact List.infix_refl _
  | merge i ms l r k ihl ihr =>
      rcases mem_preorder_merge.1 h with rfl | h | h
      · exact List.infix_refl _
      · rw [preorder_merge]
        exact ((ihl h).trans (List.prefix_append ..).isInfix).trans (List.suffix_cons ..).isInfix
      · rw [preorder_merge]
        exact ((ihr h).trans (List.suffix_append ..).isInfix).trans (List.suffix_cons ..).isInfix

/-- A node comes before each node below it. -/
theorem sublist_preorder_of_below {t c d : Cluster} (hc : c ∈ t.preorder) (hd : d.Below c) :
    [c, d].Sublist t.preorder := by
  obtain ⟨child, hchild, hmem⟩ := below_iff.1 hd
  refine List.Sublist.trans ?_ (isInfix_preorder hc).sublist
  cases c with
  | leaf i ms => cases hchild
  | merge i ms l r k =>
      refine List.Sublist.cons_cons _ (List.singleton_sublist.2 (List.mem_append.2 ?_))
      rcases List.mem_pair.1 hchild with rfl | rfl
      · exact Or.inl hmem
      · exact Or.inr hmem

/-- The nodes of the left child's tree come before those of the right child's. -/
theorem sublist_preorder_of_children {t c l r a b : Cluster} (hc : c ∈ t.preorder)
    (hchildren : c.children = [l, r]) (ha : a ∈ l.preorder) (hb : b ∈ r.preorder) :
    [a, b].Sublist t.preorder := by
  refine List.Sublist.trans ?_ (isInfix_preorder hc).sublist
  cases c with
  | leaf i ms => cases hchildren
  | merge i ms l' r' k =>
      cases hchildren
      exact .cons _ ((List.singleton_sublist.2 ha).append (List.singleton_sublist.2 hb))

end Cluster

/-! ### Linked trees -/

namespace CouplingMatrix

/-- The trees over the units of a matrix in which disjoint clusters are joined, the one with the
smaller least position on the left, with a larger identifier than both, at the coupling of the
calls between them. -/
inductive Linked (m : CouplingMatrix) : Cluster → Prop
  /-- A unit alone. -/
  | leaf (i : Fin m.units.size) : m.Linked (m.leafAt i)
  /-- Two linked trees joined. -/
  | join {i : Int} {l r : Cluster} (left : m.Linked l) (right : m.Linked r)
      (left_id : l.id < i) (right_id : r.id < i) (disjoint : l.indices.Disjoint r.indices)
      (least_lt : l.least < r.least) :
      m.Linked (Cluster.join i l r (m.normalize (crossSum m.weight l.indices r.indices)))

namespace Linked

variable {m : CouplingMatrix} {c : Cluster}

/-- The members of a linked tree are members of the matrix. -/
theorem members_subset (h : m.Linked c) : c.members ⊆ m.members := by
  induction h with
  | leaf i =>
      intro a ha
      rw [List.mem_singleton.1 ha]
      exact m.mem_members i
  | @join i l r _ _ _ _ _ _ ihl ihr =>
      intro a ha
      rcases List.mem_append.1 ((Member.union_perm l.members r.members).mem_iff.1 ha) with ha | ha
      · exact ihl ha
      · exact ihr ha

/-- The members of a linked tree stand in strictly ascending order. -/
theorem sorted (h : m.Linked c) : c.indices.Pairwise (· < ·) := by
  induction h with
  | leaf i => exact List.pairwise_singleton _ _
  | @join i l r _ _ _ _ hdisj _ ihl ihr =>
      have hle : (Member.union l.members r.members).Pairwise fun a b => a.index ≤ b.index :=
        Member.union_sorted _ _
      have hne : (l.indices ++ r.indices).Nodup :=
        List.nodup_append'.2 ⟨ihl.imp ne_of_lt, ihr.imp ne_of_lt, hdisj⟩
      have hnodup := (Cluster.indices_join_perm i l r
        (m.normalize (crossSum m.weight l.indices r.indices))).nodup_iff.2 hne
      rw [Cluster.indices, Cluster.members_join, List.pairwise_map]
      refine hle.imp₂ ?_ (List.pairwise_map.1 hnodup)
      exact fun _ _ hab hne => lt_of_le_of_ne hab hne

theorem members_nodup (h : m.Linked c) : c.members.Nodup :=
  List.Nodup.of_map Member.index (h.sorted.imp ne_of_lt)

theorem members_ne_nil (h : m.Linked c) : c.members ≠ [] := by
  induction h with
  | leaf i => exact List.cons_ne_nil _ _
  | @join i l r _ _ _ _ _ _ ihl _ =>
      intro hnil
      rw [Cluster.members_join] at hnil
      have hlen := (Member.union_perm l.members r.members).length_eq
      rw [hnil, List.length_append, List.length_nil] at hlen
      exact ihl (List.length_eq_zero_iff.1 (by omega))

/-- The nodes of a linked tree are linked trees. -/
theorem of_mem_preorder (h : m.Linked c) {d : Cluster} (hd : d ∈ c.preorder) : m.Linked d := by
  induction h with
  | leaf i =>
      rw [List.mem_singleton.1 hd]
      exact .leaf i
  | @join i l r hl hr hil hir hdisj hleast ihl ihr =>
      rcases Cluster.mem_preorder_merge.1 hd with rfl | hd | hd
      · exact .join hl hr hil hir hdisj hleast
      · exact ihl hd
      · exact ihr hd

/-- The children of a merge that is a linked tree are linked trees. -/
theorem of_merge {i : Int} {ms : List Member} {l r : Cluster} {k : Binary64}
    (h : m.Linked (.merge i ms l r k)) : m.Linked l ∧ m.Linked r := by
  cases h with
  | join left right _ _ _ _ => exact ⟨left, right⟩

end Linked

end CouplingMatrix

end Cohesion
