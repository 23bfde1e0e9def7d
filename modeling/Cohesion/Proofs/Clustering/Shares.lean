/-
Couplings of pairs, clusters and modules.

All couplings are shares of the number of all calls, or means of such shares.  So they are numbers
of moderate size, whatever the matrix is: a matrix without calls has no shares, and one with calls
divides a word by a number that is not zero.

Main definitions:
* `Binary64.Proper` — a number that a coupling can be;
* `Cluster.IsProper` — the couplings in a tree are such numbers.

Main results:
* `CouplingMatrix.proper_normalize`, `CouplingMatrix.proper_average` — shares and means are proper;
* `Linkage.isProper_of_mem_run` — so is every coupling at which clusters are joined;
* `CouplingMatrix.proper_of_mem_pairs`, `Dendrogram.proper_of_mem_cut` — **the couplings of pairs and
  modules are proper**.
-/
import Cohesion.Proofs.Clustering.Cut
import Cohesion.Proofs.Number.Magnitude

set_option autoImplicit false

namespace Cohesion

/-- A number that a coupling can be: it is of moderate size, in the form of all results. -/
structure Binary64.Proper (x : Binary64) : Prop where
  /-- It has the form of all results. -/
  canonical : x.Canonical
  /-- It is of moderate size. -/
  moderate : x.Moderate

namespace Binary64

theorem proper_zero (s : Bool) : (zero s).Proper := ⟨canonical_zero s, moderate_zero s⟩

theorem Proper.roundTo {x : Binary64} (h : x.Proper) (places : Nat) : (x.roundTo places).Proper :=
  ⟨canonical_roundTo places h.canonical, moderate_roundTo places h.moderate⟩

theorem Proper.div_ofInt {x : Binary64} (h : x.Proper) {p : Nat} (hp : 0 < p) :
    (x.div (ofInt p)).Proper :=
  ⟨canonical_div x _, moderate_div h.moderate hp⟩

end Binary64

namespace CouplingMatrix

/-- A share of all calls is proper. -/
theorem proper_normalize (m : CouplingMatrix) (calls : Int64) :
    (m.normalize calls.toInt).Proper := by
  rw [normalize]
  split
  · exact Binary64.proper_zero false
  · rename_i htotal
    have hd : m.total.toInt ≠ 0 := by
      intro h
      have hzero : m.total = 0 := Int64.toInt_inj.1 h
      simp [hzero] at htotal
    have hlow := calls.le_toInt
    have hhigh := calls.toInt_lt
    exact ⟨Binary64.canonical_ratio _ _, Binary64.moderate_ratio (by omega) hd⟩

theorem proper_couplingAt (m : CouplingMatrix) (i j : Fin m.units.size) :
    (m.couplingAt i j).Proper := by
  rw [couplingAt]
  split
  · exact Binary64.proper_zero false
  · exact m.proper_normalize _

/-- The couplings of the pairs are proper. -/
theorem proper_of_mem_pairs {m : CouplingMatrix} {p : CoupledPair} (hp : p ∈ m.pairs) :
    p.coupling.Proper := by
  rw [pairs] at hp
  split at hp
  · cases hp
  · obtain ⟨⟨i, j⟩, -, rfl⟩ := List.mem_map.1 hp
    exact m.proper_couplingAt i j

/-- The mean coupling inside a cluster is proper. -/
theorem proper_average (m : CouplingMatrix) (c : Cluster) : (m.averageInternalCoupling c).Proper := by
  rw [averageInternalCoupling]
  split
  · exact Binary64.proper_zero false
  · rename_i hsize
    have hpairs : 0 < c.size * (c.size - 1) / 2 := by
      have hprod : 2 * 1 ≤ c.size * (c.size - 1) := Nat.mul_le_mul (by omega) (by omega)
      omega
    exact (m.proper_normalize _).div_ofInt hpairs

end CouplingMatrix

/-! ### Joins -/

/-- The couplings at which clusters of a tree were joined are proper. -/
def Cluster.IsProper (c : Cluster) : Prop := ∀ d ∈ c.preorder, d.mergeCoupling.Proper

theorem Cluster.isProper_leaf (id : Int) (members : List Member) : (leaf id members).IsProper := by
  intro d hd
  obtain rfl := List.mem_singleton.1 hd
  exact Binary64.proper_zero false

theorem Cluster.IsProper.join {l r : Cluster} (hl : l.IsProper) (hr : r.IsProper) (id : Int)
    {k : Binary64} (hk : k.Proper) : (Cluster.join id l r k).IsProper := by
  intro d hd
  rcases mem_preorder_merge.1 hd with rfl | hd | hd
  · exact hk
  · exact hl d hd
  · exact hr d hd

namespace Linkage

variable {m : CouplingMatrix}

/-- Every cluster that is made by a run is proper, if those in the slots are. -/
theorem isProper_of_mem_run (steps : Nat) : ∀ {id : Int} {s : Linkage m.units.size},
    (∀ x, (s.node x).IsProper) → ∀ c ∈ run m id steps s, c.IsProper := by
  induction steps with
  | zero => exact fun _ c hc => nomatch hc
  | succ steps ih =>
      intro id s hs c hc
      rw [run, step] at hc
      cases hbest : bestPair s.scores s.slots with
      | none =>
          rw [hbest] at hc
          cases hc
      | some best =>
          rw [hbest] at hc
          have hmerged : (s.merged m id best).IsProper :=
            (hs best.first).join (hs best.second) id (m.proper_normalize best.score)
          rcases List.mem_cons.1 hc with rfl | hc
          · exact hmerged
          · refine ih (fun x => ?_) c hc
            rw [node_after]
            split
            · exact hmerged
            · exact hs x

end Linkage

/-- The cohesion of a chosen cluster is proper. -/
theorem Cluster.proper_of_mem_chosen {m : CouplingMatrix} {t : Binary64} {c : Cluster}
    {p : Cluster × Binary64} (hp : p ∈ c.chosen m t) : p.2.Proper := by
  induction c with
  | leaf i ms =>
      rw [List.mem_singleton.1 hp]
      exact Binary64.proper_zero false
  | merge i ms l r k ihl ihr =>
      rw [chosen_merge] at hp
      split at hp
      · rw [List.mem_singleton.1 hp]
        exact m.proper_average _
      · exact (List.mem_append.1 hp).elim ihl ihr

namespace Dendrogram

variable {m : CouplingMatrix}

theorem isProper_of_mem_merges {c : Cluster} (hc : c ∈ (ofMatrix m).merges) : c.IsProper := by
  refine Linkage.isProper_of_mem_run _ (fun x => ?_) c hc
  rw [Linkage.node_start]
  exact Cluster.isProper_leaf _ _

/-- **The couplings of modules are proper.** -/
theorem proper_of_mem_cut {t : Binary64} {M : Module} (hM : M ∈ ((ofMatrix m).cut m t).modules) :
    M.cohesion.Proper ∧ M.cluster.mergeCoupling.Proper := by
  cases hroot : (ofMatrix m).root? with
  | none =>
      rw [cut_modules_of_no_root hroot] at hM
      cases hM
  | some root =>
      have hproper := isProper_of_mem_merges (List.mem_of_getLast? hroot)
      refine ⟨?_, hproper _ (mem_preorder_of_mem_cut hroot hM)⟩
      have hchoice := List.mem_map_of_mem (f := Module.choice) hM
      rw [map_cut_modules hroot] at hchoice
      exact Cluster.proper_of_mem_chosen hchoice

end Dendrogram

end Cohesion
