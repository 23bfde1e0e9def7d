/-
A unit without calls.

A unit that is added at the end of the list and takes part in no call is joined last.  As long as
two other clusters are left, the first pair with the most calls is one of theirs: a pair with the
new unit has no calls, and comes after another pair with as many.  In the end the root of the
others is joined with the new unit at the coupling zero, so a cut that gives up the new root has
the old modules and the new unit alone.

Main definitions:
* `CallGraph.addUnit` — a call graph with one more unit;
* `Module.renumber` — a module whose cluster has other identifiers.

Main results:
* `CouplingMatrix.Extends.merges_eq_append` — the merges with one more unit;
* `CouplingMatrix.Extends.cut_eq_append` — the modules with one more unit;
* `Dendrogram.merges_addUnit` — **a unit without calls is joined last, at the coupling zero**.
-/
import Cohesion.Proofs.Clustering.Extension

set_option autoImplicit false

namespace Cohesion

/-- The call graph with one more unit at the end, which takes part in no call. -/
def CallGraph.addUnit (g : CallGraph) (u : CodeUnit) : CallGraph :=
  { g with units := g.units ++ [u] }

/-- The root after a unit was added to `n` units: the old root and the new unit, joined at the
coupling zero. -/
def Cluster.newRoot (n : Nat) (root unit : Cluster) : Cluster :=
  join (2 * n) (root.renumber (shiftId n (n + 1))) unit (.zero false)

/-- The module with other identifiers in its cluster. -/
def Module.renumber (f : Int → Int) (M : Module) : Module :=
  { M with cluster := M.cluster.renumber f }

theorem Binary64.ratio_zero_left {den : Int} (h : 0 ≤ den) (hne : den ≠ 0) :
    ratio 0 den = zero false := by
  have hnonneg : ¬den < 0 := by omega
  simp [ratio, nearest, hne, hnonneg]

namespace CouplingMatrix

theorem normalize_zero {m : CouplingMatrix} (h : 0 ≤ m.total.toInt) :
    m.normalize 0 = .zero false := by
  rw [normalize]
  split
  · rfl
  · rename_i hne
    rw [total_eq_zero_iff] at hne
    exact Binary64.ratio_zero_left h hne

namespace Extends

/-! ### Extensions by one unit -/

variable {m m' : CouplingMatrix} {k : Int} (h : m.Extends m' k) (hm : m.Bounded) (hm' : m'.Bounded)
  (hsize : m'.units.size = m.units.size + 1) {last : Fin m'.units.size}
  (hlast : last.val = m.units.size)

include h hm hm' hsize hlast

/-- One more unit is joined last. -/
theorem merges_eq_append (hn : 2 ≤ m.units.size) (htotal : 0 ≤ m'.total.toInt) :
    ∃ root, (Dendrogram.ofMatrix m).root? = some root ∧ (Dendrogram.ofMatrix m').merges =
      (Dendrogram.ofMatrix m).merges.map
          (Cluster.renumber (Cluster.shiftId m.units.size (m.units.size + 1))) ++
        [root.newRoot m.units.size (m'.leafAt last)] := by
  obtain ⟨s, s', hf, hlen, hsteps, hs', he⟩ := Dendrogram.exists_embedding h hm hm' (by omega)
  obtain ⟨x, root, hslots, hroot, hnode⟩ := Dendrogram.exists_root_slot hf hlen hn
  refine ⟨root, hroot, ?_⟩
  have hx : x ∈ s.slots := hslots ▸ List.mem_singleton_self x
  -- the slot of the root and that of the new unit are left
  have hlt : Fin.castLE h.size_le x < last := by
    have hx := x.isLt
    rw [Fin.lt_def, Fin.val_castLE]
    omega
  have hboth : ∀ z ∈ s'.slots, z = Fin.castLE h.size_le x ∨ z = last := by
    intro z hz
    rcases (he.mem_slots z).1 hz with ⟨a, ha, rfl⟩ | hout
    · rw [hslots, List.mem_singleton] at ha
      exact Or.inl (ha ▸ rfl)
    · have hz := z.isLt
      exact Or.inr (Fin.ext (by omega))
  have hp : s'.Picks m' (Fin.castLE h.size_le x) last :=
    .of_pair (he.castLE_mem hx) ((he.mem_slots last).2 (Or.inr hlast.ge)) hlt hboth
  have hstep := hs'.step_of_picks hm' (2 * m.units.size) hp
  have hjoined : s'.joined m' (2 * m.units.size) (Fin.castLE h.size_le x) last =
      root.newRoot m.units.size (m'.leafAt last) := by
    rw [Linkage.joined, he.node x hx, he.leaf last hlast.ge, he.calls_eq_zero _ hlast.ge, hnode,
      normalize_zero htotal, hsize]
    rfl
  have hone : Linkage.run m' (2 * m.units.size) 1 s' =
      [root.newRoot m.units.size (m'.leafAt last)] := by
    simp only [Linkage.run, hstep, hjoined]
  have hid : (m'.units.size : Int) + (m.units.size - 1 : Nat) = 2 * m.units.size := by
    omega
  have hcount : m.units.size - 1 + 1 = m'.units.size - 1 := by
    omega
  have hshift : Cluster.shiftId m.units.size m'.units.size =
      Cluster.shiftId m.units.size (m.units.size + 1) := by
    rw [hsize]
  have hrun := hsteps.run_eq 1
  rw [List.length_map, hlen, hid, hcount, hone, hshift] at hrun
  exact hrun

omit hsize hlast in
/-- Where the new root is given up, the clusters chosen under it are those under the old root and
the new unit. -/
theorem chosen_newRoot {root : Cluster} (hroot : m.Linked root) {t : Binary64}
    (hbelow : t.lt (m'.averageInternalCoupling (root.newRoot m.units.size (m'.leafAt last))) =
      false) :
    (root.newRoot m.units.size (m'.leafAt last)).chosen m' t =
      (root.chosen m t).map (fun p =>
          (p.1.renumber (Cluster.shiftId m.units.size (m.units.size + 1)), p.2)) ++
        [(m'.leafAt last, .zero false)] := by
  have hchosen := h.chosen_renumber hm hm' hroot
    (Cluster.shiftId m.units.size (m.units.size + 1)) t
  rw [Cluster.newRoot, Cluster.join] at hbelow ⊢
  rw [Cluster.chosen_merge, hbelow, if_neg Bool.false_ne_true, hchosen]
  rfl

omit hsize hlast in
/-- So the modules are the old ones and the new unit. -/
theorem cut_newRoot {d' : Dendrogram} {root : Cluster}
    (hroot : (Dendrogram.ofMatrix m).root? = some root)
    (hroot' : d'.root? = some (root.newRoot m.units.size (m'.leafAt last))) {t : Binary64}
    (hbelow : t.lt (m'.averageInternalCoupling (root.newRoot m.units.size (m'.leafAt last))) =
      false) :
    (d'.cut m' t).modules =
      ((Dendrogram.ofMatrix m).cut m t).modules.map
          (Module.renumber (Cluster.shiftId m.units.size (m.units.size + 1))) ++
        [⟨((Dendrogram.ofMatrix m).cut m t).modules.length + 1, m'.leafAt last, .zero false⟩] := by
  have hlinked := Dendrogram.linked_of_root? hm hroot
  rw [Dendrogram.cut_modules hroot', Dendrogram.cut_modules hroot,
    h.chosen_newRoot hm hm' hlinked hbelow, List.mapIdx_append, List.length_map, List.length_mapIdx]
  refine congrArg₂ (· ++ ·) (List.ext_getElem (by simp) fun i h₁ h₂ => ?_) ?_
  · simp [Module.renumber]
  · simp

end Extends

end CouplingMatrix

/-! ### One more unit -/

namespace Dendrogram

section

variable {g : CallGraph} {m : CouplingMatrix} (h : CouplingMatrix.ofGraph g = .ok m)
  (hsum : g.total < 2 ^ 63) {u : CodeUnit} (hu : ∀ v ∈ g.units, v.same u = false)

include h hsum hu

/-- A call graph with one more unit is accepted, and its matrix extends the one without it. -/
theorem exists_ofGraph_addUnit : ∃ m', CouplingMatrix.ofGraph (g.addUnit u) = .ok m' ∧
    m.Extends m' 1 ∧ m'.Bounded ∧ m'.units.size = m.units.size + 1 ∧ 0 ≤ m'.total.toInt ∧
    ∃ last, last.val = m.units.size ∧
      m'.leafAt last = Cluster.single m.units.size u m.units.size := by
  have hunits : (g.units ++ [u]).Pairwise fun u v => u.same v = false := by
    refine List.pairwise_append.2
      ⟨CouplingMatrix.pairwise_of_build h, List.pairwise_singleton _ _, ?_⟩
    intro v hv w hw
    rw [List.mem_singleton.1 hw]
    exact hu v hv
  have haccepted : ∀ c ∈ g.calls, c.Acceptable (g.units ++ [u]) := fun c hc =>
    (CouplingMatrix.acceptable_of_build h hc).mono (List.subset_append_left ..)
  obtain ⟨m', hm'⟩ := CouplingMatrix.exists_build_iff.2 ⟨hunits, haccepted⟩
  have hextends : m.Extends m' 1 := CouplingMatrix.extends_of_build h hm' one_pos
    (fun a b => (one_mul _).symm) (one_mul _).symm hsum
  have hsize : m'.units.size = m.units.size + 1 := by
    rw [CouplingMatrix.size_of_build h, CouplingMatrix.size_of_build hm', List.length_append,
      List.length_singleton]
  have htotal : 0 ≤ m'.total.toInt := by
    rw [CouplingMatrix.toInt_total_of_build hm' hsum]
    exact CouplingMatrix.sum_nonneg_of_build hm'
  obtain ⟨last, hlast⟩ : ∃ last : Fin m'.units.size, last.val = m.units.size :=
    ⟨⟨m.units.size, by omega⟩, rfl⟩
  have hget := CouplingMatrix.getElem?_units_of_build hm' last
  rw [hlast, CouplingMatrix.size_of_build h, List.getElem?_concat_length,
    Option.some.injEq] at hget
  refine ⟨m', hm', hextends, CouplingMatrix.bounded_of_build hm' hsum, hsize, htotal, last, hlast,
    ?_⟩
  rw [CouplingMatrix.leafAt, hlast, ← hget]

/-- **A unit without calls is joined last**: add a new unit at the end of the list of at least two
units of an accepted call graph whose counts sum to less than `2 ^ 63`.  The call graph is accepted
then.  Up to identifiers it has the same merges, and one more that joins the old root with the new
unit at the coupling zero.  At every threshold at which the new root is not a module, the modules
are the old ones and the new unit alone. -/
theorem merges_addUnit (hn : 2 ≤ g.units.length) : ∃ m' root newRoot,
    CouplingMatrix.ofGraph (g.addUnit u) = .ok m' ∧ (ofMatrix m).root? = some root ∧
    newRoot = root.newRoot g.units.length (.single g.units.length u g.units.length) ∧
    (ofMatrix m').merges =
      (ofMatrix m).merges.map
        (Cluster.renumber (Cluster.shiftId g.units.length (g.units.length + 1))) ++ [newRoot] ∧
    ∀ t : Binary64, t.lt (m'.averageInternalCoupling newRoot) = false →
      ((ofMatrix m').cut m' t).modules =
        ((ofMatrix m).cut m t).modules.map
            (Module.renumber (Cluster.shiftId g.units.length (g.units.length + 1))) ++
          [⟨((ofMatrix m).cut m t).modules.length + 1,
            .single g.units.length u g.units.length, .zero false⟩] := by
  obtain ⟨m', hm', hextends, hbounded, hsize, htotal, last, hlast, hleaf⟩ :=
    exists_ofGraph_addUnit h hsum hu
  have hm := CouplingMatrix.bounded_of_build h hsum
  have hlen := CouplingMatrix.size_of_build h
  obtain ⟨root, hroot, hmerges⟩ :=
    hextends.merges_eq_append hm hbounded hsize hlast (by omega) htotal
  have hroot' : (ofMatrix m').root? = some (root.newRoot m.units.size (m'.leafAt last)) := by
    rw [root?, hmerges, List.getLast?_append_of_ne_nil _ (List.cons_ne_nil _ _),
      List.getLast?_singleton]
  have hcut := fun t : Binary64 => hextends.cut_newRoot hm hbounded hroot hroot' (t := t)
  rw [hleaf, hlen] at hmerges hcut
  exact ⟨m', root, _, hm', hroot, rfl, hmerges, hcut⟩

end

/-- A fifth unit, and a threshold that nothing is above. -/
theorem merges_addUnit_square : ∃ m m' root newRoot,
    CouplingMatrix.ofGraph .square = .ok m ∧
    CouplingMatrix.ofGraph (CallGraph.square.addUnit (.named "E")) = .ok m' ∧
    (ofMatrix m).root? = some root ∧
    newRoot = root.newRoot 4 (.single 4 (.named "E") 4) ∧
    (ofMatrix m').merges =
      (ofMatrix m).merges.map (Cluster.renumber (Cluster.shiftId 4 5)) ++ [newRoot] ∧
    ((ofMatrix m').cut m' (.infinite false)).modules =
      ((ofMatrix m).cut m (.infinite false)).modules.map (Module.renumber (Cluster.shiftId 4 5)) ++
        [⟨((ofMatrix m).cut m (.infinite false)).modules.length + 1,
          .single 4 (.named "E") 4, .zero false⟩] := by
  obtain ⟨m, hm⟩ := CouplingMatrix.exists_ofGraph_square
  obtain ⟨m', root, newRoot, hm', hroot, hnew, hmerges, hcut⟩ :=
    merges_addUnit hm (by decide) (u := .named "E") (by decide) (by decide)
  have hbelow : (Binary64.infinite false).lt (m'.averageInternalCoupling newRoot) = false := by
    cases m'.averageInternalCoupling newRoot <;> rfl
  exact ⟨m, m', root, newRoot, hm, hm', hroot, hnew, hmerges, hcut _ hbelow⟩

end Dendrogram

end Cohesion
