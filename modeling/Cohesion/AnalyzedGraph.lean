/-
A call graph and an analysis of it.

Calls can be added to a call graph after an analysis of it began.  So both are used side by side:
calls are added to the graph, and the analysis is asked for couplings, for its dendrogram and for
modules.

Main definitions:
* `AnalyzedGraph` — a call graph and an analysis, `AnalyzedGraph.ofGraph` when it begins;
* `Access`, `Reply` — what either of them is asked, and what it replies;
* `AnalyzedGraph.step`, `AnalyzedGraph.run` — one access, and one after the other.
-/
import Cohesion.Analysis

set_option autoImplicit false

namespace Cohesion

/-- What a call graph or an analysis of it is asked. -/
inductive Access where
  /-- Calls are added to the graph. -/
  | addCall (caller callee : CodeUnit) (count : Int)
  /-- The coupling of two units. -/
  | coupling (a b : CodeUnit)
  /-- The pairs of units with calls between them. -/
  | pairs
  /-- The dendrogram. -/
  | dendrogram
  /-- The modules at a threshold. -/
  | identify (threshold : Binary64)

/-- An access that uses the dendrogram. -/
def Access.clusters : Access → Bool
  | .dendrogram | .identify _ => true
  | .addCall .. | .coupling .. | .pairs => false

/-- What is replied to an access. -/
inductive Reply where
  /-- Nothing. -/
  | added
  /-- A coupling. -/
  | coupling (value : Binary64)
  /-- Pairs of units. -/
  | pairs (pairs : List CoupledPair)
  /-- A dendrogram. -/
  | dendrogram (d : Dendrogram)
  /-- Modules. -/
  | modules (cut : Cut)

/-- A call graph, and an analysis of it that began some time before. -/
structure AnalyzedGraph where
  /-- The call graph. -/
  graph : CallGraph
  /-- The analysis. -/
  analysis : Analysis

namespace AnalyzedGraph

/-- A call graph of which an analysis begins. -/
def ofGraph (g : CallGraph) : Except MatrixError AnalyzedGraph :=
  (Analysis.ofGraph g).map fun a => ⟨g, a⟩

/-- The reply to an access. -/
def reply (s : AnalyzedGraph) : Access → Reply
  | .addCall .. => .added
  | .coupling a b => .coupling (s.analysis.matrix.coupling a b)
  | .pairs => .pairs s.analysis.matrix.pairs
  | .dendrogram => .dendrogram s.analysis.dendrogram
  | .identify t => .modules (s.analysis.identify t)

/-- What is said at an access. -/
def log (s : AnalyzedGraph) : Access → List LogLine
  | .addCall .. | .coupling .. | .pairs => []
  | .dendrogram => s.analysis.clusterLog
  | .identify t => s.analysis.clusterLog ++ s.analysis.identifyLog t

/-- The graph and the analysis after an access. -/
def step (s : AnalyzedGraph) : Access → AnalyzedGraph
  | .addCall caller callee count => { s with graph := s.graph.addCall caller callee count }
  | .coupling .. | .pairs => s
  | .dendrogram | .identify _ => { s with analysis := s.analysis.clustered }

/-- The replies to accesses one after the other, each with what is said, and the graph and the
analysis in the end. -/
def run (s : AnalyzedGraph) : List Access → List (Reply × List LogLine) × AnalyzedGraph
  | [] => ([], s)
  | access :: rest =>
    let (replies, last) := (s.step access).run rest
    ((s.reply access, s.log access) :: replies, last)

end AnalyzedGraph

end Cohesion
