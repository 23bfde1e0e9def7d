/-
Linking the units of a coupling matrix into a tree.

At first every unit is a cluster of its own.  Then, again and again, the two clusters with the most
calls between them are joined, until one is left.  Each cluster lives in a slot, that of its first
unit, and a table holds the calls between the clusters of any two slots: joining two clusters adds
the row and the column of the second slot to those of the first.

Main definitions:
* `Linkage` — the state between two joins;
* `Linkage.start`, `Linkage.step` — the first state and the next one;
* `Linkage.run` — the clusters made by a number of steps.
-/
import Cohesion.Clustering.BestPair
import Cohesion.Clustering.Cluster
import Cohesion.Coupling.Matrix

set_option autoImplicit false

namespace Cohesion

/-- The state of the linkage of `n` units. -/
structure Linkage (n : Nat) where
  /-- The calls between the clusters in two slots. -/
  scores : Table n
  /-- The cluster in each slot. -/
  nodes : Vector Cluster n
  /-- The slots that are in use, in ascending order. -/
  slots : List (Fin n)

/-- The cluster of the unit at a position. -/
def CouplingMatrix.leafAt (m : CouplingMatrix) (i : Fin m.units.size) : Cluster :=
  Cluster.single i.val (m.unitAt i) i.val

namespace Linkage

variable {n : Nat}

/-- The state in which every unit is a cluster of its own. -/
def start (m : CouplingMatrix) : Linkage m.units.size where
  scores := m.symmetric
  nodes := Vector.ofFn m.leafAt
  slots := List.finRange m.units.size

/-- The table after the cluster of slot `y` joined that of slot `x`. -/
def fuse (scores : Table n) (x y : Fin n) : Table n :=
  ((scores.addRow x y).addColumn x y).clear x x

/-- The cluster that the best pair makes. -/
def merged (s : Linkage n) (m : CouplingMatrix) (id : Int) (best : ScoredPair n) : Cluster :=
  Cluster.join id s.nodes[best.first] s.nodes[best.second] (m.normalize best.score.toInt)

/-- The state after the best pair has become `cluster`. -/
def after (s : Linkage n) (best : ScoredPair n) (cluster : Cluster) : Linkage n where
  scores := fuse s.scores best.first best.second
  nodes := s.nodes.set best.first cluster
  slots := s.slots.erase best.second

/-- The cluster made by the next join, and the state after it. -/
def step (s : Linkage n) (m : CouplingMatrix) (id : Int) : Option (Cluster × Linkage n) :=
  (bestPair s.scores s.slots).map fun best =>
    let cluster := s.merged m id best
    (cluster, s.after best cluster)

/-- The clusters made by a number of steps, of which the first has the given identifier. -/
def run (m : CouplingMatrix) (id : Int) : Nat → Linkage n → List Cluster
  | 0, _ => []
  | steps + 1, s =>
    match s.step m id with
    | none => []
    | some (cluster, next) => cluster :: run m (id + 1) steps next

end Linkage

end Cohesion
