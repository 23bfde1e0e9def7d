/-
How much fits into modules.

The modules of a cut have no unit in common, so the calls inside them are some of all calls.  A
module of several units is above the threshold on the average of its pairs, so the threshold times
the number of its pairs is less than its share of all calls.  Added up over all modules, the
threshold times the number of pairs inside modules is less than one, and so a threshold tells how
large a module can be.

This is so as long as averages are exact.  Cohesion is rounded twice, which may lift it above a
threshold that the exact average does not reach; then the pairs can exceed the bound by two
rounding errors.  But a module alone does not: its cohesion is at most the rounded inverse of the
number of its pairs, and rounding does not pass a threshold.

Main definitions:
* `Cluster.nearest` — the nodes nearest to the root that pass a test;
* `CouplingMatrix.exactAverage` — the mean coupling of the pairs in a cluster, not rounded;
* `Dendrogram.modulesBy`, `Dendrogram.exactModules` — the modules by a test, and by exact averages;
* `CouplingMatrix.Fits` — what clusters have to do with a threshold.

Main results:
* `Dendrogram.map_cluster_cut` — the modules of a cut are those by the comparison of cohesions;
* `CouplingMatrix.Linked.sum_inside_nearest_le` — the calls inside modules are some of all calls;
* `CouplingMatrix.Linked.fits_nearest` — what passes a test fits, if each node alone does;
* `CouplingMatrix.Linked.exists_average_le` — cohesion is at most the exact average and two errors;
* `Dendrogram.modules_fit` — **how much fits into modules**.
-/
import Cohesion.Proofs.Clustering.Accounting
import Cohesion.Proofs.Clustering.Bystander
import Cohesion.Proofs.Clustering.Cut
import Cohesion.Proofs.Coupling.Pairs
import Mathlib.Data.Nat.Choose.Cast

set_option autoImplicit false

namespace Cohesion

/-! ### Modules by a test -/

namespace Cluster

/-- The nodes of a tree that pass a test and are nearest to the root, and the leaves under no such
node. -/
def nearest (accepts : Cluster → Bool) : Cluster → List Cluster
  | c@(leaf _ _) => [c]
  | c@(merge _ _ left right _) =>
    if accepts c then [c] else left.nearest accepts ++ right.nearest accepts

variable {accepts accepts' : Cluster → Bool}

theorem nearest_merge (i : Int) (ms : List Member) (l r : Cluster) (k : Binary64) :
    (merge i ms l r k).nearest accepts = if accepts (merge i ms l r k) then [merge i ms l r k]
      else l.nearest accepts ++ r.nearest accepts := rfl

/-- The clusters chosen in a tree are those above the threshold that are nearest to the root. -/
theorem map_fst_chosen (m : CouplingMatrix) (t : Binary64) (c : Cluster) :
    (c.chosen m t).map Prod.fst = c.nearest fun d => t.lt (m.averageInternalCoupling d) := by
  induction c with
  | leaf i ms => rfl
  | merge i ms l r k ihl ihr =>
      rw [chosen_merge, nearest_merge]
      split
      · rfl
      · rw [List.map_append, ihl, ihr]

/-- Only the merges are tested. -/
theorem nearest_congr {c : Cluster}
    (h : ∀ d ∈ c.preorder, d.isLeaf = false → accepts d = accepts' d) :
    c.nearest accepts = c.nearest accepts' := by
  induction c with
  | leaf i ms => rfl
  | merge i ms l r k ihl ihr =>
      have hl := ihl fun d hd => h d (mem_preorder_merge.2 (Or.inr (Or.inl hd)))
      have hr := ihr fun d hd => h d (mem_preorder_merge.2 (Or.inr (Or.inr hd)))
      rw [nearest_merge, nearest_merge, h _ (self_mem_preorder _) rfl, hl, hr]

theorem mem_preorder_of_mem_nearest {c d : Cluster} (hd : d ∈ c.nearest accepts) :
    d ∈ c.preorder ∧ (d.isLeaf = false → accepts d = true) := by
  induction c with
  | leaf i ms =>
      rw [List.mem_singleton.1 hd]
      exact ⟨self_mem_preorder _, fun hleaf => by cases hleaf⟩
  | merge i ms l r k ihl ihr =>
      rw [nearest_merge] at hd
      split at hd
      · rename_i haccepts
        rw [List.mem_singleton.1 hd]
        exact ⟨self_mem_preorder _, fun _ => haccepts⟩
      · rcases List.mem_append.1 hd with hd | hd
        · exact ⟨mem_preorder_merge.2 (Or.inr (Or.inl (ihl hd).1)), (ihl hd).2⟩
        · exact ⟨mem_preorder_merge.2 (Or.inr (Or.inr (ihr hd).1)), (ihr hd).2⟩

/-- The number of pairs of members. -/
def pairCount (c : Cluster) : Nat := c.size * (c.size - 1) / 2

theorem pairCount_cast (c : Cluster) : (c.pairCount : ℚ) = c.size * (c.size - 1) / 2 := by
  rw [pairCount, ← Nat.choose_two_right, Nat.cast_choose_two]

theorem pairCount_pos {c : Cluster} (hc : 2 ≤ c.size) : 0 < c.pairCount := by
  rw [pairCount, ← Nat.choose_two_right]
  exact Nat.choose_pos hc

theorem cast_pairCount_pos {c : Cluster} (hc : 2 ≤ c.size) : (0 : ℚ) < c.pairCount := by
  exact_mod_cast pairCount_pos hc

theorem lt_of_mul_pairCount_lt {c : Cluster} (hc : 2 ≤ c.size) {q : ℚ}
    (h : q * c.pairCount < 1) : q < 2 / (c.size * (c.size - 1)) := by
  have hinverse : (2 / (c.size * (c.size - 1)) : ℚ) = 1 / c.pairCount := by
    rw [pairCount_cast, one_div_div]
  rw [hinverse]
  exact (lt_div_iff₀ (cast_pairCount_pos hc)).2 h

end Cluster

/-- The modules of a dendrogram by a test; without a root there are none. -/
def Dendrogram.modulesBy (d : Dendrogram) (accepts : Cluster → Bool) : List Cluster :=
  match d.root? with
  | none => []
  | some root => root.nearest accepts

/-- The modules of a cut are those by the comparison of the threshold with the cohesion. -/
theorem Dendrogram.map_cluster_cut (d : Dendrogram) (m : CouplingMatrix) (t : Binary64) :
    (d.cut m t).modules.map Module.cluster =
      d.modulesBy fun c => t.lt (m.averageInternalCoupling c) := by
  rw [modulesBy]
  cases hroot : d.root? with
  | none => rw [cut_modules_of_no_root hroot, List.map_nil]
  | some root =>
      change _ = root.nearest _
      rw [← Cluster.map_fst_chosen, ← map_cut_modules hroot, List.map_map]
      rfl

/-! ### The calls inside modules -/

namespace CouplingMatrix

/-- The calls inside a cluster. -/
def inside (m : CouplingMatrix) (c : Cluster) : Int := (m.internalCalls c.indices).toInt

/-- The mean coupling of the pairs in a cluster, not rounded; zero with fewer than two members or
without any calls. -/
def exactAverage (m : CouplingMatrix) (c : Cluster) : ℚ :=
  if c.size < 2 then 0 else m.inside c / m.total.toInt / c.pairCount

theorem exactAverage_eq (m : CouplingMatrix) {c : Cluster} (hc : 2 ≤ c.size) :
    m.exactAverage c = m.inside c / m.total.toInt / c.pairCount := if_neg (by omega)

/-- Clusters fit under a threshold: the calls inside them are some of all calls, the threshold
times the number of pairs inside them is less than a bound, and none is too large. -/
structure Fits (m : CouplingMatrix) (q bound : ℚ) (clusters : List Cluster) : Prop where
  /-- The calls inside the clusters are some of all calls. -/
  calls : (clusters.map m.inside).sum ≤ m.total.toInt
  /-- The pairs inside clusters of two or more units are bounded. -/
  pairs : (∃ c ∈ clusters, 2 ≤ c.size) →
    q * ((clusters.filter fun c => 2 ≤ c.size).map fun c => (c.size * (c.size - 1) / 2 : ℚ)).sum <
      bound
  /-- Each cluster of two or more units is bounded. -/
  size : ∀ c ∈ clusters, 2 ≤ c.size → q < 2 / (c.size * (c.size - 1))

namespace Linked

variable {m : CouplingMatrix} {c : Cluster}

/-- The members of a linked tree are some of all units. -/
theorem size_le (hc : m.Linked c) : c.size ≤ m.units.size := by
  have hle := hc.indices_subperm.length_le
  rwa [Cluster.indices, List.length_map, positions, List.length_map, members, List.length_map,
    List.length_finRange] at hle

/-- A module of two or more units passed the test. -/
theorem accepted_of_mem_nearest (hc : m.Linked c) {accepts : Cluster → Bool}
    {d : Cluster} (hd : d ∈ c.nearest accepts) (hsize : 2 ≤ d.size) : accepts d = true := by
  obtain ⟨hnode, haccepted⟩ := Cluster.mem_preorder_of_mem_nearest hd
  refine haccepted (Bool.eq_false_iff.2 fun hleaf => ?_)
  cases hc.of_mem_preorder hnode with
  | leaf i => exact absurd hsize (by decide : ¬2 ≤ 1)
  | join => cases hleaf

variable (hm : m.Bounded) (hc : m.Linked c)

include hm hc

theorem inside_eq : m.inside c = pairSum m.weight c.indices :=
  hm.toInt_internalCalls hc.indices_subperm

theorem inside_nonneg : 0 ≤ m.inside c := by
  rw [hc.inside_eq hm]
  exact pairSum_nonneg hm.weight_nonneg _

/-- The calls inside the modules of a tree are some of the calls inside the tree. -/
theorem sum_inside_nearest_le (accepts : Cluster → Bool) :
    ((c.nearest accepts).map m.inside).sum ≤ m.inside c := by
  induction hc with
  | leaf i => exact (add_zero _).le
  | @join i l r hl hr hli hri hdisjoint hleast ihl ihr =>
      have hjoin := (Linked.join hl hr hli hri hdisjoint hleast).inside_eq hm
      have hcross := crossSum_nonneg hm.weight_nonneg l.indices r.indices
      rw [Cluster.join, Cluster.nearest_merge]
      split
      · exact (add_zero _).le
      · rw [List.map_append, List.sum_append, ← Cluster.join, hjoin, pairSum_join]
        rw [hl.inside_eq hm] at ihl
        rw [hr.inside_eq hm] at ihr
        omega

/-- What passes a test fits under a threshold if each node that passes it does: shares of all calls
add up to at most one. -/
theorem fits_nearest {accepts : Cluster → Bool} {q bound : ℚ} (hbound : 0 < bound)
    (hall : m.inside c ≤ m.total.toInt)
    (hshare : ∀ d ∈ c.preorder, 2 ≤ d.size → accepts d = true →
      q * d.pairCount < bound * (m.inside d / m.total.toInt))
    (hsize : ∀ d ∈ c.preorder, 2 ≤ d.size → accepts d = true → q < 2 / (d.size * (d.size - 1))) :
    m.Fits q bound (c.nearest accepts) := by
  have hcalls := (hc.sum_inside_nearest_le hm accepts).trans hall
  have hnode : ∀ d ∈ c.nearest accepts, d ∈ c.preorder :=
    fun d hd => (Cluster.mem_preorder_of_mem_nearest hd).1
  constructor
  case calls => exact hcalls
  case size =>
    exact fun d hd htwo => hsize d (hnode d hd) htwo (hc.accepted_of_mem_nearest hd htwo)
  case pairs =>
    rintro ⟨d, hd, htwo⟩
    set large := (c.nearest accepts).filter fun d => 2 ≤ d.size with hlarge
    have hmem : ∀ e ∈ large, e ∈ c.nearest accepts ∧ 2 ≤ e.size := by
      intro e he
      simpa [hlarge] using he
    have hne : large ≠ [] := List.ne_nil_of_mem (a := d) (by simpa [hlarge] using ⟨hd, htwo⟩)
    have hsome : (large.map m.inside).sum ≤ m.total.toInt := by
      refine le_trans (List.Sublist.sum_le_sum (List.filter_sublist.map _) ?_) hcalls
      intro n hn
      obtain ⟨e, he, rfl⟩ := List.mem_map.1 hn
      exact (hc.of_mem_preorder (hnode e he)).inside_nonneg hm
    have htotal : (0 : ℚ) ≤ m.total.toInt := by
      exact_mod_cast (hc.inside_nonneg hm).trans hall
    have hless : (large.map fun e => q * e.pairCount).sum <
        (large.map fun e => bound * (m.inside e / m.total.toInt)).sum := by
      refine List.sum_lt_sum_of_ne_nil hne _ _ fun e he => ?_
      obtain ⟨he, htwo⟩ := hmem e he
      exact hshare e (hnode e he) htwo (hc.accepted_of_mem_nearest he htwo)
    calc q * (large.map fun e => (e.size * (e.size - 1) / 2 : ℚ)).sum
        = (large.map fun e => q * e.pairCount).sum := by
          simp only [List.sum_map_mul_left, Cluster.pairCount_cast]
      _ < (large.map fun e => bound * (m.inside e / m.total.toInt)).sum := hless
      _ = bound * (((large.map m.inside).sum : Int) / m.total.toInt) := by
          rw [List.sum_map_mul_left, sum_map_div]
      _ ≤ bound * 1 := by
          refine mul_le_mul_of_nonneg_left (div_le_one_of_le₀ ?_ htotal) hbound.le
          exact_mod_cast hsome
      _ = bound := mul_one bound

variable (htotal : m.total.toInt = pairSum m.weight m.positions)

include htotal

/-- The calls inside a tree are some of all calls. -/
theorem inside_le : m.inside c ≤ m.total.toInt := by
  rw [hc.inside_eq hm, htotal]
  exact pairSum_le_of_subperm m.weight_comm hm.weight_nonneg hc.indices_subperm

theorem inside_share_le_one : (m.inside c / m.total.toInt : ℚ) ≤ 1 := by
  have hpos : (0 : ℚ) ≤ m.total.toInt := by
    exact_mod_cast (hc.inside_nonneg hm).trans (hc.inside_le hm htotal)
  refine div_le_one_of_le₀ ?_ hpos
  exact_mod_cast hc.inside_le hm htotal

/-- Modules by exact averages fit under the threshold. -/
theorem fits_exact (q : ℚ) : m.Fits q 1 (c.nearest fun d => decide (q < m.exactAverage d)) := by
  have hshare : ∀ d, 2 ≤ d.size → decide (q < m.exactAverage d) = true →
      q * d.pairCount < m.inside d / m.total.toInt := by
    intro d htwo habove
    rw [decide_eq_true_eq, m.exactAverage_eq htwo,
      lt_div_iff₀ (Cluster.cast_pairCount_pos htwo)] at habove
    exact habove
  refine hc.fits_nearest hm one_pos (hc.inside_le hm htotal) ?_ ?_
  · intro d _ htwo habove
    rw [one_mul]
    exact hshare d htwo habove
  · intro d hd htwo habove
    have hone := (hc.of_mem_preorder hd).inside_share_le_one hm htotal
    exact Cluster.lt_of_mul_pairCount_lt htwo ((hshare d htwo habove).trans_le hone)

/-- Cohesion is at most the exact average and two rounding errors, and it does not pass a
representable number that is at least the inverse of the number of pairs. -/
theorem exists_average_le (htwo : 2 ≤ c.size) (hcount : c.size ≤ 2 ^ 27) :
    ∃ w : ℚ, (m.averageInternalCoupling c).IsValue w ∧
      w ≤ (1 + 1 / 2 ^ 53) ^ 2 * m.exactAverage c ∧
      ∀ (k : Nat) (f : Int), k < Binary64.significandEnd → Binary64.leastExponent ≤ f →
        (1 / c.pairCount : ℚ) ≤ k * 2 ^ f → w ≤ k * 2 ^ f := by
  have hpairs := Cluster.pairCount_pos htwo
  have hsmall : c.pairCount < Binary64.significandEnd := by
    have hmul : c.size * (c.size - 1) ≤ 2 ^ 27 * (2 ^ 27 - 1) :=
      Nat.mul_le_mul hcount (by omega)
    exact Nat.div_lt_of_lt_mul (hmul.trans_lt (by decide))
  have hfits : m.total.toInt < 2 ^ 63 := htotal ▸ hm.pairSum_lt
  have haverage : m.averageInternalCoupling c =
      (m.normalize (m.inside c)).div (.ofInt c.pairCount) := if_neg (by omega)
  have hnonneg := hc.inside_nonneg hm
  have hle := hc.inside_le hm htotal
  rw [haverage, m.exactAverage_eq htwo]
  rcases hnonneg.eq_or_lt with hzero | hpos
  · have hnone : m.normalize (m.inside c) = .zero false := by
      rw [← hzero]
      exact normalize_zero (hnonneg.trans hle)
    refine ⟨0, ?_, ?_, fun k f _ _ _ => by positivity⟩
    · rw [hnone]
      exact Binary64.isValue_zero_div (Binary64.isValue_ofInt hsmall) (by exact_mod_cast hpairs)
    · rw [← hzero]
      simp
  · have hshare : m.normalize (m.inside c) = .ratio (m.inside c) m.total.toInt :=
      if_neg (mt m.total_eq_zero_iff.1 (by omega))
    rw [hshare]
    exact Binary64.exists_mean_error hpos hle hfits hpairs hsmall

/-- The modules of a cut fit under the threshold but for two rounding errors. -/
theorem fits_rounded {t : Binary64} {q : ℚ} (ht : t.IsValue q) (hrep : t.Representable)
    (hcount : m.units.size ≤ 2 ^ 27) :
    m.Fits q ((1 + 1 / 2 ^ 53) ^ 2) (c.nearest fun d => t.lt (m.averageInternalCoupling d)) := by
  refine hc.fits_nearest hm (by positivity) (hc.inside_le hm htotal) ?_ ?_
  · intro d hd htwo habove
    have hd := hc.of_mem_preorder hd
    obtain ⟨w, hw, hle, -⟩ := hd.exists_average_le hm htotal htwo (hd.size_le.trans hcount)
    rw [Binary64.lt_iff_of_isValue ht hw] at habove
    have hless := habove.trans_le hle
    rw [m.exactAverage_eq htwo, ← mul_div_assoc,
      lt_div_iff₀ (Cluster.cast_pairCount_pos htwo)] at hless
    exact hless
  · intro d hd htwo habove
    have hd := hc.of_mem_preorder hd
    have hpairs := Cluster.cast_pairCount_pos htwo
    obtain ⟨w, hw, -, hpass⟩ := hd.exists_average_le hm htotal htwo (hd.size_le.trans hcount)
    rw [Binary64.lt_iff_of_isValue ht hw] at habove
    refine Cluster.lt_of_mul_pairCount_lt htwo (not_le.1 fun hge => ?_)
    -- a threshold that is at least the inverse is positive and is not passed
    have hinverse : 1 / d.pairCount ≤ q := (div_le_iff₀ hpairs).2 hge
    have hq : 0 < q := lt_of_lt_of_le (by positivity) hinverse
    obtain ⟨k, f, rfl, rfl⟩ := Binary64.exists_finite_of_isValue ht hq
    exact absurd habove (not_lt.2 (hpass k f hrep.1 hrep.2 hinverse))

end Linked

end CouplingMatrix

namespace Dendrogram

/-- The modules by exact averages. -/
def exactModules (d : Dendrogram) (m : CouplingMatrix) (q : ℚ) : List Cluster :=
  d.modulesBy fun c => decide (q < m.exactAverage c)

/-- **How much fits into modules**: for accepted calls between two or more units whose counts sum
to less than `2 ^ 63`, the modules by exact averages at a finite threshold have some of all calls
inside them; the threshold times the number of pairs inside them is less than one; and none is too
large.  The modules of a cut are found in the same way by the comparison of cohesions, and they are
the same as long as rounding decides no comparison.  Where it does, the pairs exceed the bound by
no more than two rounding errors, and still no module is too large. -/
theorem modules_fit {units : List CodeUnit} {calls : List Call} {m : CouplingMatrix}
    (h : CouplingMatrix.build units calls = .ok m) (hn : 2 ≤ units.length)
    (hsum : sumOf (calls.map (·.count)) < 2 ^ 63) {t : Binary64} {q : ℚ} (ht : t.IsValue q) :
    m.Fits q 1 ((ofMatrix m).exactModules m q) ∧
    ((ofMatrix m).cut m t).modules.map Module.cluster =
      (ofMatrix m).modulesBy (fun c => t.lt (m.averageInternalCoupling c)) ∧
    ((∀ c ∈ (ofMatrix m).merges,
        t.lt (m.averageInternalCoupling c) = true ↔ q < m.exactAverage c) →
      ((ofMatrix m).cut m t).modules.map Module.cluster = (ofMatrix m).exactModules m q) ∧
    ((((ofMatrix m).cut m t).modules.map Module.cluster).map m.inside).sum ≤ m.total.toInt ∧
    (t.Representable → units.length ≤ 2 ^ 27 →
      m.Fits q ((1 + 1 / 2 ^ 53) ^ 2) (((ofMatrix m).cut m t).modules.map Module.cluster)) := by
  have hm := CouplingMatrix.bounded_of_build h hsum
  have hsize := CouplingMatrix.size_of_build h
  obtain ⟨root, hroot, hlinked, -, hnodes⟩ := exists_root hm (by omega)
  have htotal : m.total.toInt = pairSum m.weight m.positions := by
    rw [CouplingMatrix.toInt_total_of_build h hsum, CouplingMatrix.pairSum_weight_of_build h hsum]
  have hby : ∀ accepts, (ofMatrix m).modulesBy accepts = root.nearest accepts := by
    intro accepts
    rw [modulesBy, hroot]
  have hcut := map_cluster_cut (ofMatrix m) m t
  refine ⟨?_, hcut, ?_, ?_, ?_⟩
  · rw [exactModules, hby]
    exact hlinked.fits_exact hm htotal q
  · intro hsame
    rw [hcut, exactModules, hby, hby]
    refine Cluster.nearest_congr fun c hc hmerge => ?_
    rw [Bool.eq_iff_iff, decide_eq_true_eq]
    refine hsame c ((List.mem_append.1 (hnodes.mem_iff.1 hc)).resolve_left fun hleaf => ?_)
    obtain ⟨i, rfl⟩ := Linkage.mem_leaves.1 hleaf
    cases hmerge
  · rw [hcut, hby]
    exact (hlinked.sum_inside_nearest_le hm _).trans (hlinked.inside_le hm htotal)
  · intro hrep hcount
    rw [hcut, hby]
    exact hlinked.fits_rounded hm htotal ht hrep (hsize ▸ hcount)

/-- One eighth is below the average of all six pairs of the square, which is one sixth. -/
theorem modules_fit_square : ∃ m : CouplingMatrix,
    CouplingMatrix.build CallGraph.square.units CallGraph.square.calls = .ok m ∧
      m.Fits (1 / 8) 1 ((ofMatrix m).exactModules m (1 / 8)) ∧
      m.Fits (1 / 8) ((1 + 1 / 2 ^ 53) ^ 2)
        (((ofMatrix m).cut m (.finite false 1 (-3))).modules.map Module.cluster) := by
  obtain ⟨m, hm⟩ := CouplingMatrix.exists_ofGraph_square
  have hvalue : (Binary64.finite false 1 (-3)).IsValue (1 / 8) := by
    have hfinite := Binary64.isValue_finite 1 (-3)
    norm_num at hfinite ⊢
    exact hfinite
  obtain ⟨hexact, -, -, -, hrounded⟩ := modules_fit hm (by decide) (by decide) hvalue
  exact ⟨m, hm, hexact, hrounded ⟨by decide, by decide⟩ (by decide)⟩

end Dendrogram

end Cohesion
