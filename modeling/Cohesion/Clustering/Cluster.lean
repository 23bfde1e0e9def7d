/-
Clusters of units.

A cluster is a node of a binary tree.  It lists its members, units with their positions in the
order of all units, by ascending position.  A leaf has no children; a merge has two, and the
coupling at which they were joined.

Main definitions:
* `Member` — a unit at a position;
* `Member.union` — two lists of members as one, by position;
* `Cluster` — the trees, made by `Cluster.single` and `Cluster.join`;
* `Cluster.ofParts` — a cluster from parts that need not fit together;
* `Cluster.visit` — all nodes of a stack of clusters, each before its children.
-/
import Cohesion.CodeUnit
import Cohesion.Number.Binary64

set_option autoImplicit false

namespace Cohesion

/-- A unit at a position. -/
structure Member where
  /-- The position in the order of all units. -/
  index : Int
  /-- The unit. -/
  unit : CodeUnit
  deriving DecidableEq, Repr

namespace Member

/-- A member put in front of the first one whose position is not less. -/
def insert (m : Member) : List Member → List Member
  | [] => [m]
  | other :: rest => if m.index ≤ other.index then m :: other :: rest else other :: insert m rest

/-- Two lists of members as one list by ascending position; of equal positions those of the first
list come first. -/
def union (left right : List Member) : List Member :=
  (left ++ right).foldr insert []

end Member

/-- A node of a tree of clusters. -/
inductive Cluster where
  /-- A cluster without children. -/
  | leaf (id : Int) (members : List Member)
  /-- A cluster of two children that were joined at a coupling. -/
  | merge (id : Int) (members : List Member) (left right : Cluster) (coupling : Binary64)
  deriving DecidableEq, Repr, Inhabited

/-- Why parts make no cluster. -/
inductive ClusterError where
  /-- There is one child. -/
  | oneChild
  /-- There are no members. -/
  | empty
  deriving DecidableEq, Repr

/-- The wording of an error. -/
def ClusterError.message : ClusterError → String
  | .oneChild => "A cluster has either two children or none"
  | .empty => "A cluster cannot be empty"

namespace Cluster

/-- The identifier. -/
def id : Cluster → Int
  | leaf id _ => id
  | merge id _ _ _ _ => id

/-- The members. -/
def members : Cluster → List Member
  | leaf _ members => members
  | merge _ members _ _ _ => members

/-- The coupling at which the children were joined, zero without children. -/
def mergeCoupling : Cluster → Binary64
  | leaf _ _ => .zero false
  | merge _ _ _ _ coupling => coupling

/-- The cluster has no children. -/
def isLeaf : Cluster → Bool
  | leaf _ _ => true
  | merge _ _ _ _ _ => false

/-- The units of the members. -/
def units (c : Cluster) : List CodeUnit := c.members.map (·.unit)

/-- The positions of the members. -/
def indices (c : Cluster) : List Int := c.members.map (·.index)

/-- The number of members. -/
def size (c : Cluster) : Nat := c.members.length

/-- The names of the units. -/
def names (c : Cluster) : List String := c.units.map (·.name)

/-- The names of the units in braces. -/
def label (c : Cluster) : String := "\x7b" ++ ", ".intercalate c.names ++ "\x7d"

/-- The cluster of one unit. -/
def single (id : Int) (unit : CodeUnit) (index : Int) : Cluster := leaf id [⟨index, unit⟩]

/-- The cluster of the members of two clusters. -/
def join (id : Int) (left right : Cluster) (coupling : Binary64) : Cluster :=
  merge id (Member.union left.members right.members) left right coupling

/-- The cluster of members and children that are given separately. -/
def ofParts (id : Int) (members : List Member) (left right : Option Cluster) :
    Except ClusterError Cluster :=
  match left, right with
  | some _, none => .error .oneChild
  | none, some _ => .error .oneChild
  | none, none => if members.isEmpty then .error .empty else .ok (leaf id members)
  | some l, some r =>
    if members.isEmpty then .error .empty else .ok (merge id members l r (.zero false))

/-- The number of nodes of the tree. -/
def nodeCount : Cluster → Nat
  | leaf _ _ => 1
  | merge _ _ left right _ => 1 + left.nodeCount + right.nodeCount

/-- The nodes met when clusters are taken from a stack, its top first: the children of a merge are
put on the stack, the left one on top. -/
def visit : List Cluster → List Cluster
  | [] => []
  | c@(leaf _ _) :: stack => c :: visit stack
  | c@(merge _ _ left right _) :: stack => c :: visit (left :: right :: stack)
termination_by stack => stack.foldr (fun c count => c.nodeCount + count) 0
decreasing_by all_goals simp only [nodeCount, List.foldr_cons]; omega

end Cluster

end Cohesion
