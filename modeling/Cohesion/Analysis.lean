/-
The analysis of a call graph.

An analysis holds the coupling matrix of a call graph as it was when the analysis began.  The
dendrogram of the matrix is built when it is used for the first time and kept from then on, so that
modules can be identified for any number of thresholds.

Main definitions:
* `Analysis` — the matrix, and the dendrogram once it has been used;
* `Analysis.ofGraph` — the analysis of a call graph, before anything was used;
* `Analysis.dendrogram`, `Analysis.clustered` — the dendrogram, and the analysis that has kept it;
* `Analysis.identify` — the modules at a threshold.
-/
import Cohesion.Clustering.Cut

set_option autoImplicit false

namespace Cohesion

/-- The coupling matrix of a call graph, with its dendrogram once that has been used. -/
structure Analysis where
  /-- The coupling matrix. -/
  matrix : CouplingMatrix
  /-- The dendrogram that is kept. -/
  kept? : Option Dendrogram := none

namespace Analysis

/-- The analysis of a matrix. -/
def ofMatrix (m : CouplingMatrix) : Analysis := { matrix := m }

/-- The analysis of a call graph. -/
def ofGraph (g : CallGraph) : Except MatrixError Analysis :=
  (CouplingMatrix.ofGraph g).map ofMatrix

/-- The dendrogram that is kept, or else a new one of the matrix. -/
def dendrogram (a : Analysis) : Dendrogram := a.kept?.getD (Dendrogram.ofMatrix a.matrix)

/-- The analysis after its dendrogram was used. -/
def clustered (a : Analysis) : Analysis := { a with kept? := some a.dendrogram }

/-- What is said when the dendrogram is used: only a new one is worth a word. -/
def clusterLog (a : Analysis) : List LogLine :=
  if a.kept?.isSome then [] else a.dendrogram.log

/-- The modules at a threshold. -/
def identify (a : Analysis) (threshold : Binary64) : Cut := a.dendrogram.cut a.matrix threshold

/-- What is said about the modules at a threshold. -/
def identifyLog (a : Analysis) (threshold : Binary64) : List LogLine :=
  let cut := a.identify threshold
  cut.log ++ [⟨.info, "analyzer",
    s!"Threshold {fixed 4 threshold}: {cut.modules.length} module(s) over {cut.unitCount} unit(s)"⟩]

end Analysis

end Cohesion
