/-
An analysis is of the graph as it was.

Only the first use of the dendrogram is special: the dendrogram is built then, and later uses get
what was kept.  So an analysis has either kept nothing or the dendrogram of its matrix, and as the
matrix was made when the analysis began, nothing that is added to the graph later is seen.  Every
reply is the one that a new analysis of the graph as it was would give.

Main definitions:
* `Analysis.IsOf` — the invariant: the analysis is of a matrix;
* `CouplingMatrix.reply` — what a matrix replies, with a new dendrogram for each access;
* `Access.call?` — the calls that an access adds.

Main results:
* `AnalyzedGraph.isOf_step`, `AnalyzedGraph.reply_eq` — one access keeps the invariant and is replied
  to as the matrix does;
* `AnalyzedGraph.isOf_run`, `AnalyzedGraph.kept?_run`, `AnalyzedGraph.graph_run` — what a run of
  accesses leads to;
* `AnalyzedGraph.clusterLog_run` — the dendrogram is built at most once;
* `AnalyzedGraph.replies_run` — **a run of accesses sees the graph as it was**.
-/
import Cohesion.AnalyzedGraph
import Cohesion.Proofs.Coupling.Build

set_option autoImplicit false

namespace Cohesion

/-- What a matrix replies to an access, with a new dendrogram each time. -/
def CouplingMatrix.reply (m : CouplingMatrix) : Access → Reply
  | .addCall .. => .added
  | .coupling a b => .coupling (m.coupling a b)
  | .pairs => .pairs m.pairs
  | .dendrogram => .dendrogram (Dendrogram.ofMatrix m)
  | .identify t => .modules ((Dendrogram.ofMatrix m).cut m t)

/-- The calls that an access adds to the graph. -/
def Access.call? : Access → Option Call
  | .addCall caller callee count => some ⟨caller, callee, count⟩
  | .coupling .. | .pairs | .dendrogram | .identify _ => none

/-! ### What is kept -/

/-- The analysis is of a matrix: what it has kept is the dendrogram of the matrix. -/
structure Analysis.IsOf (a : Analysis) (m : CouplingMatrix) : Prop where
  /-- The matrix is the matrix of the analysis. -/
  matrix_eq : a.matrix = m
  /-- Nothing is kept, or the dendrogram of the matrix. -/
  kept_eq : ∀ d ∈ a.kept?, d = Dendrogram.ofMatrix m

namespace Analysis

variable {a : Analysis} {m : CouplingMatrix}

theorem isOf_ofMatrix (m : CouplingMatrix) : (ofMatrix m).IsOf m :=
  ⟨rfl, fun _ hd => nomatch hd⟩

/-- The dendrogram is that of the matrix, kept or new. -/
theorem IsOf.dendrogram_eq (h : a.IsOf m) : a.dendrogram = Dendrogram.ofMatrix m := by
  rw [dendrogram, h.matrix_eq]
  cases hkept : a.kept? with
  | none => rfl
  | some d => exact h.kept_eq d hkept

theorem IsOf.kept?_eq (h : a.IsOf m) :
    a.kept? = if a.kept?.isSome then some (Dendrogram.ofMatrix m) else none := by
  cases hkept : a.kept? with
  | none => rfl
  | some d => exact congrArg some (h.kept_eq d hkept)

theorem IsOf.clustered (h : a.IsOf m) : a.clustered.IsOf m := by
  refine ⟨h.matrix_eq, fun d hd => ?_⟩
  rw [Analysis.clustered, Option.mem_some_iff] at hd
  rw [← hd, h.dendrogram_eq]

theorem IsOf.identify_eq (h : a.IsOf m) (t : Binary64) :
    a.identify t = (Dendrogram.ofMatrix m).cut m t := by
  rw [identify, h.dendrogram_eq, h.matrix_eq]

end Analysis

/-! ### One access -/

namespace AnalyzedGraph

variable {s : AnalyzedGraph} {m : CouplingMatrix}

/-- An access is replied to as the matrix does. -/
theorem reply_eq (h : s.analysis.IsOf m) (access : Access) : s.reply access = m.reply access := by
  cases access with
  | addCall caller callee count => rfl
  | coupling a b => rw [reply, h.matrix_eq, CouplingMatrix.reply]
  | pairs => rw [reply, h.matrix_eq, CouplingMatrix.reply]
  | dendrogram => rw [reply, h.dendrogram_eq, CouplingMatrix.reply]
  | identify t => rw [reply, h.identify_eq, CouplingMatrix.reply]

/-- No access changes what the analysis is of. -/
theorem isOf_step (h : s.analysis.IsOf m) (access : Access) : (s.step access).analysis.IsOf m := by
  cases access with
  | addCall caller callee count => exact h
  | coupling a b => exact h
  | pairs => exact h
  | dendrogram => exact h.clustered
  | identify t => exact h.clustered

/-- The dendrogram is kept from its first use on. -/
theorem kept?_step (s : AnalyzedGraph) (access : Access) :
    (s.step access).analysis.kept?.isSome = (s.analysis.kept?.isSome || access.clusters) := by
  cases access with
  | addCall caller callee count => exact (Bool.or_false _).symm
  | coupling a b => exact (Bool.or_false _).symm
  | pairs => exact (Bool.or_false _).symm
  | dendrogram => exact (Bool.or_true _).symm
  | identify t => exact (Bool.or_true _).symm

/-- The graph changes only by calls that are added. -/
theorem graph_step (s : AnalyzedGraph) (access : Access) : (s.step access).graph =
    access.call?.elim s.graph fun c => s.graph.addCall c.caller c.callee c.count := by
  cases access <;> rfl

/-! ### Any number of accesses -/

theorem run_cons (s : AnalyzedGraph) (access : Access) (rest : List Access) :
    s.run (access :: rest) = ((s.reply access, s.log access) :: ((s.step access).run rest).1,
      ((s.step access).run rest).2) := rfl

theorem isOf_run (h : s.analysis.IsOf m) (accesses : List Access) :
    (s.run accesses).2.analysis.IsOf m := by
  induction accesses generalizing s with
  | nil => exact h
  | cons access rest ih => exact ih (isOf_step h access)

theorem map_fst_run (h : s.analysis.IsOf m) (accesses : List Access) :
    (s.run accesses).1.map Prod.fst = accesses.map m.reply := by
  induction accesses generalizing s with
  | nil => rfl
  | cons access rest ih =>
      rw [run_cons, List.map_cons, List.map_cons, reply_eq h, ih (isOf_step h access)]

theorem kept?_run (s : AnalyzedGraph) (accesses : List Access) :
    (s.run accesses).2.analysis.kept?.isSome =
      (s.analysis.kept?.isSome || accesses.any Access.clusters) := by
  induction accesses generalizing s with
  | nil => exact (Bool.or_false _).symm
  | cons access rest ih => rw [run_cons, ih, kept?_step, List.any_cons, Bool.or_assoc]

theorem graph_run (s : AnalyzedGraph) (accesses : List Access) :
    (s.run accesses).2.graph = (accesses.filterMap Access.call?).foldl
      (fun g c => g.addCall c.caller c.callee c.count) s.graph := by
  induction accesses generalizing s with
  | nil => rfl
  | cons access rest ih =>
      rw [run_cons, ih, graph_step, List.filterMap_cons]
      cases access.call? <;> rfl

/-- The dendrogram is built at most once: after its first use nothing more is said about it. -/
theorem clusterLog_run (h : s.analysis.IsOf m) (hnew : s.analysis.kept? = none)
    (accesses : List Access) : (s.run accesses).2.analysis.clusterLog =
      if accesses.any Access.clusters then [] else (Dendrogram.ofMatrix m).log := by
  rw [Analysis.clusterLog, kept?_run, hnew, Option.isSome_none, Bool.false_or,
    (isOf_run h accesses).dendrogram_eq]

/-- **A run of accesses sees the graph as it was** when the analysis began, whatever calls are added
meanwhile: each reply is the one of the coupling matrix of that graph, with the dendrogram of that
matrix and its cut at the threshold, and in the end nothing is kept, when no access used the
dendrogram, or that same dendrogram. -/
theorem replies_run {g : CallGraph} (hgraph : CouplingMatrix.ofGraph g = .ok m) :
    ∃ s, ofGraph g = .ok s ∧ ∀ accesses : List Access,
      (s.run accesses).1.map Prod.fst = accesses.map m.reply ∧
      (s.run accesses).2.analysis.matrix = m ∧
      (s.run accesses).2.analysis.kept? =
        (if accesses.any Access.clusters then some (Dendrogram.ofMatrix m) else none) ∧
      (s.run accesses).2.graph = (accesses.filterMap Access.call?).foldl
        (fun g c => g.addCall c.caller c.callee c.count) g := by
  refine ⟨⟨g, .ofMatrix m⟩, by rw [ofGraph, Analysis.ofGraph, hgraph]; rfl, fun accesses => ?_⟩
  have hstart := Analysis.isOf_ofMatrix m
  have hlast : ((⟨g, .ofMatrix m⟩ : AnalyzedGraph).run accesses).2.analysis.IsOf m :=
    isOf_run hstart accesses
  refine ⟨map_fst_run hstart accesses, hlast.matrix_eq, ?_, graph_run _ accesses⟩
  rw [hlast.kept?_eq, kept?_run, Analysis.ofMatrix, Option.isSome_none, Bool.false_or]

end AnalyzedGraph

/-- Uses of a graph and of its analysis, with calls that it would not have been accepted with. -/
def Access.mixed : List Access :=
  [.coupling (.named "A") (.named "C"), .addCall (.named "A") (.named "B") 100,
    .identify (.ratio 1 4), .addCall (.named "A") (.named "E") 1, .dendrogram, .identify .nan,
    .coupling (.named "A") (.named "C"), .pairs]

theorem AnalyzedGraph.replies_run_square : ∃ m s, CouplingMatrix.ofGraph .square = .ok m ∧
    ofGraph .square = .ok s ∧ (s.run Access.mixed).1.map Prod.fst = Access.mixed.map m.reply ∧
      ∃ e, CouplingMatrix.ofGraph (s.run Access.mixed).2.graph = .error e := by
  obtain ⟨m, hm⟩ := CouplingMatrix.exists_ofGraph_square
  obtain ⟨s, hs, hrun⟩ := replies_run hm
  obtain ⟨hreplies, -, -, hgraph⟩ := hrun Access.mixed
  refine ⟨m, s, hm, hs, hreplies, ?_⟩
  rw [hgraph]
  exact ⟨_, by with_unfolding_all rfl⟩

end Cohesion
