/-
Dendrograms.

A dendrogram holds the tree that the linkage of a coupling matrix makes: a leaf for each unit, and
the merges in the order in which they were made.  The last merge is the root.

Main definitions:
* `Dendrogram` — leaves and merges;
* `Dendrogram.ofMatrix` — the dendrogram of a coupling matrix;
* `Dendrogram.walk` — all nodes under the root, each before its children;
* `Dendrogram.progress`, `Dendrogram.log` — what is told about the work;
* `CouplingMatrix.clusterCoupling` — the coupling of two clusters.
-/
import Cohesion.Clustering.Linkage

set_option autoImplicit false

namespace Cohesion

/-- A tree of clusters over a list of units. -/
structure Dendrogram where
  /-- The clusters of one unit, in unit order. -/
  leaves : List Cluster
  /-- The other clusters, in the order in which they were made. -/
  merges : List Cluster
  deriving Repr, Inhabited

namespace Dendrogram

/-- The dendrogram of a coupling matrix: one merge less than there are units. -/
def ofMatrix (m : CouplingMatrix) : Dendrogram where
  leaves := (List.finRange m.units.size).map m.leafAt
  merges := Linkage.run m m.units.size (m.units.size - 1) (Linkage.start m)

/-- The last merge; fewer than two units have none. -/
def root? (d : Dendrogram) : Option Cluster := d.merges.getLast?

/-- The number of units. -/
def unitCount (d : Dendrogram) : Nat := d.leaves.length

/-- There are too few units for a merge. -/
def isInsufficient (d : Dendrogram) : Bool := d.unitCount < 2

/-- All nodes under the root: each before its children, the left child's first. -/
def walk (d : Dendrogram) : List Cluster :=
  match d.root? with
  | none => []
  | some root => Cluster.visit [root]

/-- A node by its identifier. -/
def node? (d : Dendrogram) (id : Int) : Option Cluster :=
  (d.leaves ++ d.merges).find? (·.id == id)

/-- The reports of progress: the number of the merge and the number of all merges. -/
def progress (d : Dendrogram) : List (Nat × Nat) :=
  d.merges.mapIdx fun i _ => (i + 1, d.unitCount - 1)

/-- What is said about the merge with a number. -/
def mergeLine (number : Nat) : Cluster → List LogLine
  | .leaf _ _ => []
  | .merge _ _ left right coupling =>
    [⟨.debug, "clusterer",
      s!"Merge {number}: {left.label} + {right.label} (coupling {fixed 4 coupling})"⟩]

/-- What is said about the work. -/
def log (d : Dendrogram) : List LogLine :=
  if d.isInsufficient then
    [⟨.info, "clusterer", s!"Not enough units to cluster ({d.unitCount})"⟩]
  else
    (d.merges.mapIdx fun i c => mergeLine (i + 1) c).flatten ++
      [⟨.info, "clusterer",
        s!"Built dendrogram over {d.unitCount} units ({d.merges.length} merges)"⟩]

end Dendrogram

/-- The sum of the couplings of every member of one cluster and every member of the other. -/
def CouplingMatrix.clusterCoupling (m : CouplingMatrix) (a b : Cluster) : Binary64 :=
  m.normalize (m.crossCalls a.indices b.indices).toInt

end Cohesion
