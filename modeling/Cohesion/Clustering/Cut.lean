/-
Cutting a dendrogram into modules.

Going down from the root, a cluster whose average internal coupling is above the threshold is a
module; any other cluster is given up for its two children, and a single unit is always a module.

Main definitions:
* `CouplingMatrix.averageInternalCoupling` — the mean coupling of the pairs in a cluster;
* `Module` — a cluster chosen as a module;
* `Cut` — the modules of a threshold, with `Cut.warning?`;
* `Dendrogram.cut` — the cut of a dendrogram at a threshold.
-/
import Cohesion.Clustering.Dendrogram

set_option autoImplicit false

namespace Cohesion

/-- The mean coupling over all pairs of members, zero with fewer than two members. -/
def CouplingMatrix.averageInternalCoupling (m : CouplingMatrix) (c : Cluster) : Binary64 :=
  let k := c.size
  if k < 2 then .zero false
  else
    let pairs : Nat := k * (k - 1) / 2
    (m.normalize (m.internalCalls c.indices).toInt).div (.ofInt pairs)

/-- A cluster chosen as a module. -/
structure Module where
  /-- The number of the module, from one. -/
  number : Nat
  /-- The cluster. -/
  cluster : Cluster
  /-- The average internal coupling, zero for a single unit. -/
  cohesion : Binary64
  deriving Repr

namespace Module

/-- The units. -/
def units (m : Module) : List CodeUnit := m.cluster.units

/-- The number of units. -/
def size (m : Module) : Nat := m.cluster.size

/-- The heading of the module. -/
def label (m : Module) : String := s!"Module {m.number}"

/-- The heading and the names of the units. -/
def text (m : Module) : String := s!"{m.label}: {m.cluster.label}"

end Module

/-- The modules of a dendrogram at a threshold. -/
structure Cut where
  /-- The threshold. -/
  threshold : Binary64
  /-- The number of units. -/
  unitCount : Nat
  /-- The modules in tree order. -/
  modules : List Module
  deriving Repr

namespace Cut

/-- There are too few units for a tree. -/
def isInsufficient (c : Cut) : Bool := c.unitCount < 2

/-- The number of modules that should not be exceeded: half the units. -/
def maxModules (c : Cut) : Nat := c.unitCount / 2

/-- There are more modules than there should be. -/
def tooManyModules (c : Cut) : Bool := 1 < c.unitCount && c.maxModules < c.modules.length

/-- What is said about too many modules. -/
def warning? (c : Cut) : Option String :=
  if c.tooManyModules then
    some s!"Module count ({c.modules.length}) is greater than M/2 ({c.maxModules})"
  else none

/-- What is said about the cut: the clusters that were accepted, and the warning. -/
def log (c : Cut) : List LogLine :=
  if c.isInsufficient then
    [⟨.info, "extractor", s!"No dendrogram root: {c.unitCount} unit(s), nothing to extract"⟩]
  else
    (c.modules.filter (!·.cluster.isLeaf)).map (fun m =>
      ⟨.debug, "extractor",
        s!"Accept {m.cluster.label} (cohesion {fixed 4 m.cohesion} > {fixed 4 c.threshold})"⟩) ++
    c.warning?.toList.map fun text => ⟨.warning, "extractor", text⟩

end Cut

/-- The clusters that are chosen when clusters are taken from a stack, its top first, with their
cohesion: a merge that is not above the threshold is given up for its children, the left one on
top. -/
def Cluster.choose (m : CouplingMatrix) (threshold : Binary64) :
    List Cluster → List (Cluster × Binary64)
  | [] => []
  | c@(.leaf _ _) :: stack => (c, .zero false) :: choose m threshold stack
  | c@(.merge _ _ left right _) :: stack =>
    let cohesion := m.averageInternalCoupling c
    if threshold.lt cohesion then (c, cohesion) :: choose m threshold stack
    else choose m threshold (left :: right :: stack)
termination_by stack => stack.foldr (fun c count => c.nodeCount + count) 0
decreasing_by all_goals simp only [Cluster.nodeCount, List.foldr_cons]; omega

/-- The cut of a dendrogram at a threshold; without a root there are no modules. -/
def Dendrogram.cut (d : Dendrogram) (m : CouplingMatrix) (threshold : Binary64) : Cut where
  threshold := threshold
  unitCount := d.unitCount
  modules :=
    match d.root? with
    | none => []
    | some root =>
      (Cluster.choose m threshold [root]).mapIdx fun i (cluster, cohesion) =>
        ⟨i + 1, cluster, cohesion⟩

end Cohesion
