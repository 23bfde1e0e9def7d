/-
Linkage by plain search.

The linkage keeps the calls between any two clusters in a table and adds rows and columns to each
other.  The same clusters are made without a table: the clusters in use are kept in a list by
their smallest positions, and for each pair of them all calls between their members are counted
anew.

Main definitions:
* `PlainLinkage.callsBetween` — the calls between two clusters, counted from the matrix;
* `PlainLinkage.best?` — the first pair of a list of clusters with the most calls between them;
* `PlainLinkage.step`, `PlainLinkage.merges` — one join, and all joins until one cluster is left.

Main results:
* `Linkage.Sound.best?_eq` — both searches find the same pair;
* `Linkage.Sound.plain_step` — a plain step follows a step of the linkage;
* `Dendrogram.merges_eq_plain` — the dendrogram has exactly the clusters of the plain linkage.
-/
import Cohesion.Proofs.Clustering.Linkage
import Cohesion.Proofs.Coupling.Build

set_option autoImplicit false

namespace Cohesion

/-! ### The plain linkage -/

namespace PlainLinkage

/-- The calls between two clusters: for each member of the one and each member of the other, the
calls between them in both directions. -/
def callsBetween (m : CouplingMatrix) (a b : Cluster) : Int :=
  crossSum m.weight a.indices b.indices

/-- The places of the first pair of clusters with the most calls between them. -/
def best? (m : CouplingMatrix) (clusters : List Cluster) :
    Option (Fin clusters.length × Fin clusters.length) :=
  let pairs := CouplingMatrix.positionPairs clusters.length
  pairs.find? fun p => pairs.all fun q =>
    callsBetween m clusters[q.1] clusters[q.2] ≤ callsBetween m clusters[p.1] clusters[p.2]

/-- The best pair of clusters joined, and the clusters after that, by their smallest positions. -/
def step (m : CouplingMatrix) (id : Int) (clusters : List Cluster) :
    Option (Cluster × List Cluster) :=
  (best? m clusters).map fun (i, j) =>
    let a := clusters[i]
    let b := clusters[j]
    let joined := Cluster.join id a b (m.normalize (callsBetween m a b))
    let others := (clusters.eraseIdx j).eraseIdx i
    (joined, others.orderedInsert (fun a b => a.least ≤ b.least) joined)

theorem mem_positionPairs {n : Nat} {p : Fin n × Fin n} :
    p ∈ CouplingMatrix.positionPairs n ↔ p.1 < p.2 := by
  obtain ⟨i, j⟩ := p
  simp [CouplingMatrix.positionPairs]

/-- The pairs of positions are listed by their first and then by their second position. -/
theorem positionPairs_sorted (n : Nat) : (CouplingMatrix.positionPairs n).Pairwise
    fun p q => p.1 < q.1 ∨ p.1 = q.1 ∧ p.2 < q.2 := by
  have hrange : (List.finRange n).Pairwise (· < ·) := (List.sortedLT_finRange n).pairwise
  rw [CouplingMatrix.positionPairs, List.pairwise_flatMap]
  constructor
  · intro i _
    rw [List.pairwise_map]
    exact (hrange.filter _).imp fun h => Or.inr ⟨rfl, h⟩
  · refine hrange.imp fun {i j} hij p hp q hq => ?_
    obtain ⟨_, _, rfl⟩ := List.mem_map.1 hp
    obtain ⟨_, _, rfl⟩ := List.mem_map.1 hq
    exact Or.inl hij

/-- A step leaves one cluster less. -/
theorem length_of_step {m : CouplingMatrix} {id : Int} {clusters rest : List Cluster} {c : Cluster}
    (h : step m id clusters = some (c, rest)) : rest.length + 1 = clusters.length := by
  obtain ⟨⟨i, j⟩, hbest, heq⟩ := Option.map_eq_some_iff.1 h
  have hij : i < j := mem_positionPairs.1 (List.mem_of_find?_eq_some hbest)
  cases heq
  have hj : (clusters.eraseIdx j).length + 1 = clusters.length :=
    List.length_eraseIdx_add_one j.isLt
  have hi : ((clusters.eraseIdx j).eraseIdx i).length + 1 = (clusters.eraseIdx j).length :=
    List.length_eraseIdx_add_one (by omega)
  rw [List.orderedInsert_length]
  omega

/-- The clusters made until one is left, of which the first has the given identifier. -/
def merges (m : CouplingMatrix) (id : Int) (clusters : List Cluster) : List Cluster :=
  match _h : step m id clusters with
  | none => []
  | some (c, rest) => c :: merges m (id + 1) rest
termination_by clusters.length
decreasing_by have hlen := length_of_step _h; omega

theorem merges_of_step {m : CouplingMatrix} {id : Int} {clusters rest : List Cluster} {c : Cluster}
    (h : step m id clusters = some (c, rest)) :
    merges m id clusters = c :: merges m (id + 1) rest := by
  rw [merges]
  split
  · rename_i hnone
    rw [hnone] at h
    cases h
  · rename_i hsome
    rw [hsome] at h
    cases h
    rfl

/-- A single cluster is joined with nothing. -/
theorem merges_of_length_le_one {m : CouplingMatrix} {id : Int} {clusters : List Cluster}
    (h : clusters.length ≤ 1) : merges m id clusters = [] := by
  have hnone : step m id clusters = none := by
    rw [step, best?, Option.map_eq_none_iff, List.find?_eq_none]
    intro p hp
    have hlt := Fin.lt_def.1 (mem_positionPairs.1 hp)
    have h₂ := p.2.isLt
    omega
  rw [merges]
  split
  · rfl
  · rename_i hsome
    rw [hnone] at hsome
    cases hsome

end PlainLinkage

/-! ### Both make the same clusters -/

instance : Std.Total fun a b : Cluster => a.least ≤ b.least :=
  ⟨fun a b => Int.le_total a.least b.least⟩

instance : IsTrans Cluster fun a b => a.least ≤ b.least :=
  ⟨fun _ _ _ => Int.le_trans⟩

namespace Linkage

variable {m : CouplingMatrix}

/-- The clusters in use, by slot. -/
def inUse {n : Nat} (s : Linkage n) : List Cluster := s.slots.map s.node

@[simp] theorem length_inUse {n : Nat} (s : Linkage n) : s.inUse.length = s.slots.length := by
  simp [inUse]

/-- The slot of the cluster at a place of the list of clusters in use. -/
def slotAt {n : Nat} (s : Linkage n) (p : Fin s.inUse.length) : Fin n :=
  s.slots.get (p.cast s.length_inUse)

theorem slotAt_mem {n : Nat} (s : Linkage n) (p : Fin s.inUse.length) : s.slotAt p ∈ s.slots :=
  List.get_mem _ _

theorem getElem_inUse {n : Nat} (s : Linkage n) (p : Fin s.inUse.length) :
    s.inUse[p] = s.node (s.slotAt p) :=
  List.getElem_map _

theorem exists_slotAt {n : Nat} {s : Linkage n} {x : Fin n} (hx : x ∈ s.slots) :
    ∃ p, s.slotAt p = x := by
  obtain ⟨i, hi⟩ := List.get_of_mem hx
  exact ⟨i.cast s.length_inUse.symm, hi⟩

theorem callsBetween_inUse (s : Linkage m.units.size) (p q : Fin s.inUse.length) :
    PlainLinkage.callsBetween m s.inUse[p] s.inUse[q] = s.calls m (s.slotAt p) (s.slotAt q) := by
  rw [getElem_inUse, getElem_inUse]
  rfl

/-- Taking two clusters out of the list is taking their slots out of use. -/
theorem eraseIdx_inUse_perm {n : Nat} (s : Linkage n) {i j : Fin s.inUse.length} (hij : i < j) :
    ((s.inUse.eraseIdx j).eraseIdx i).Perm
      (((s.slots.erase (s.slotAt j)).erase (s.slotAt i)).map s.node) := by
  have hi : i.val < s.slots.length := i.isLt.trans_eq s.length_inUse
  have hj : j.val < s.slots.length := j.isLt.trans_eq s.length_inUse
  have hij' : i.val < j.val := hij
  have hlen : i.val < (s.slots.eraseIdx j).length := by
    rw [List.length_eraseIdx_of_lt hj]
    omega
  have hsame : (s.slots.eraseIdx j)[i.val] = s.slotAt i := List.getElem_eraseIdx_of_lt hlen hij'
  have hfirst : ((s.slots.eraseIdx j).eraseIdx i).Perm ((s.slots.eraseIdx j).erase (s.slotAt i)) :=
    hsame ▸ (List.erase_getElem hlen).symm
  have hsecond : (s.slots.eraseIdx j).Perm (s.slots.erase (s.slotAt j)) :=
    (List.erase_getElem hj).symm
  have hmap : ∀ a b : Nat, (s.inUse.eraseIdx b).eraseIdx a =
      ((s.slots.eraseIdx b).eraseIdx a).map s.node := by
    intro a b
    rw [inUse, List.eraseIdx_map, List.eraseIdx_map]
  rw [hmap]
  exact (hfirst.trans (hsecond.erase _)).map _

namespace Sound

variable {s : Linkage m.units.size} (hs : s.Sound m)

include hs

/-- The clusters in use ascend by their smallest positions. -/
theorem inUse_sorted : s.inUse.Pairwise fun a b => a.least < b.least := by
  rw [inUse, List.pairwise_map]
  refine hs.ascending.imp_of_mem fun hx hy hxy => ?_
  rw [hs.least_eq hx, hs.least_eq hy]
  exact Int.ofNat_lt.2 (Fin.lt_def.1 hxy)

theorem slotAt_lt_iff {p q : Fin s.inUse.length} : s.slotAt p < s.slotAt q ↔ p < q :=
  hs.ascending.sortedLT.strictMono_get.lt_iff_lt

/-- The plain search finds the pair that a join takes. -/
theorem best?_eq {i j : Fin s.inUse.length} (hp : s.Picks m (s.slotAt i) (s.slotAt j)) :
    PlainLinkage.best? m s.inUse = some (i, j) := by
  have hij : (i, j) ∈ CouplingMatrix.positionPairs s.inUse.length :=
    PlainLinkage.mem_positionPairs.2 (hs.slotAt_lt_iff.1 hp.lt)
  have hmax : ∀ q ∈ CouplingMatrix.positionPairs s.inUse.length,
      PlainLinkage.callsBetween m s.inUse[q.1] s.inUse[q.2] ≤
        PlainLinkage.callsBetween m s.inUse[i] s.inUse[j] := by
    intro q hq
    rw [callsBetween_inUse, callsBetween_inUse]
    exact hp.greatest _ (s.slotAt_mem _) _ (s.slotAt_mem _)
      (hs.slotAt_lt_iff.2 (PlainLinkage.mem_positionPairs.1 hq))
  obtain ⟨before, rest, hpairs⟩ := List.append_of_mem hij
  refine List.find?_eq_some_iff_append.2 ⟨?_, before, rest, hpairs, fun q hq => ?_⟩
  · exact List.all_eq_true.2 fun q hq => decide_eq_true (hmax q hq)
  · have hqmem : q ∈ CouplingMatrix.positionPairs s.inUse.length := by
      rw [hpairs]
      exact List.mem_append_left _ hq
    have hless := hs.slotAt_lt_iff.2 (PlainLinkage.mem_positionPairs.1 hqmem)
    rw [Bool.not_eq_true', Bool.eq_false_iff]
    intro hall
    -- an earlier pair with as many calls would have been picked
    have hge := of_decide_eq_true (List.all_eq_true.1 hall _ hij)
    have heq := le_antisymm (hmax q hqmem) hge
    rw [callsBetween_inUse, callsBetween_inUse] at heq
    have hfirst := hp.earliest _ (s.slotAt_mem _) _ (s.slotAt_mem _) hless heq
    have hsorted := PlainLinkage.positionPairs_sorted s.inUse.length
    rw [hpairs] at hsorted
    rcases (List.pairwise_append.1 hsorted).2.2 q hq (i, j) List.mem_cons_self with
      hrow | ⟨hrow, hcolumn⟩
    · have hrow' := hs.slotAt_lt_iff.2 hrow
      rcases hfirst with hfirst | ⟨hfirst, -⟩
      · exact lt_asymm hrow' hfirst
      · exact ne_of_lt hrow' hfirst.symm
    · rcases hfirst with hfirst | ⟨-, hfirst⟩
      · exact ne_of_lt hfirst (congrArg s.slotAt hrow.symm)
      · exact not_lt.2 hfirst (hs.slotAt_lt_iff.2 hcolumn)

/-- The clusters in use after a join are the joined cluster and the others. -/
theorem inUse_after_perm {i j : Fin s.inUse.length} (hij : i < j) (c : Cluster) :
    (s.after (s.scored m (s.slotAt i) (s.slotAt j)) c).inUse.Perm
      (c :: (s.inUse.eraseIdx j).eraseIdx i) := by
  have hmem : s.slotAt i ∈ s.slots.erase (s.slotAt j) :=
    (List.mem_erase_of_ne (ne_of_lt (hs.slotAt_lt_iff.2 hij))).2 (s.slotAt_mem i)
  have hnode : ∀ z, (s.after (s.scored m (s.slotAt i) (s.slotAt j)) c).node z =
      if z = s.slotAt i then c else s.node z := node_after s _ c
  have hother : ∀ z ∈ (s.slots.erase (s.slotAt j)).erase (s.slotAt i),
      (s.after (s.scored m (s.slotAt i) (s.slotAt j)) c).node z = s.node z := by
    intro z hz
    rw [hnode, if_neg ((hs.slots_nodup.erase _).mem_erase_iff.1 hz).1]
  have hperm := (List.perm_cons_erase hmem).map
    fun z => (s.after (s.scored m (s.slotAt i) (s.slotAt j)) c).node z
  rw [List.map_cons, List.map_congr_left hother, hnode, if_pos rfl] at hperm
  exact hperm.trans ((s.eraseIdx_inUse_perm hij).symm.cons c)

/-- Putting the joined cluster among the others, by its smallest position, gives the clusters in
use after the join. -/
theorem orderedInsert_joined {i j : Fin s.inUse.length} {c : Cluster} (hij : i < j)
    (hs' : (s.after (s.scored m (s.slotAt i) (s.slotAt j)) c).Sound m) :
    ((s.inUse.eraseIdx j).eraseIdx i).orderedInsert (fun a b => a.least ≤ b.least) c =
      (s.after (s.scored m (s.slotAt i) (s.slotAt j)) c).inUse := by
  have hperm := (List.perm_orderedInsert (fun a b : Cluster => a.least ≤ b.least) c
    ((s.inUse.eraseIdx j).eraseIdx i)).trans (hs.inUse_after_perm hij c).symm
  have hothers : ((s.inUse.eraseIdx j).eraseIdx i).Pairwise fun a b => a.least ≤ b.least :=
    (hs.inUse_sorted.imp le_of_lt).sublist
      ((List.eraseIdx_sublist _ _).trans (List.eraseIdx_sublist _ _))
  -- both sides are sorted lists of the same clusters, and no two of these have the same position
  have hunique := List.inj_on_of_nodup_map
    (List.pairwise_map.2 (hs'.inUse_sorted.imp ne_of_lt))
  refine List.Perm.eq_of_pairwise (fun a b ha hb hab hba => ?_) (hothers.orderedInsert c)
    (hs'.inUse_sorted.imp le_of_lt) hperm
  exact hunique (hperm.mem_iff.1 ha) hb (le_antisymm hab hba)

/-- A plain step joins the same clusters as a step, and leaves the clusters that are then in
use. -/
theorem plain_step (hm : m.Bounded) (id : Int) (hlen : 2 ≤ s.slots.length) :
    ∃ c s', s.step m id = some (c, s') ∧ s'.Sound m ∧ s'.slots.length + 1 = s.slots.length ∧
      PlainLinkage.step m id s.inUse = some (c, s'.inUse) := by
  obtain ⟨x, y, hp, hstep⟩ := hs.exists_step hm id hlen
  obtain ⟨i, rfl⟩ := exists_slotAt hp.first_mem
  obtain ⟨j, rfl⟩ := exists_slotAt hp.second_mem
  have hsound := hs.after_picks hm id hp
  refine ⟨_, _, hstep, hsound, ?_, ?_⟩
  · rw [length_slots_after s _ hp.second_mem]
    omega
  · have hjoined : Cluster.join id s.inUse[i] s.inUse[j]
        (m.normalize (PlainLinkage.callsBetween m s.inUse[i] s.inUse[j])) =
          s.joined m id (s.slotAt i) (s.slotAt j) := by
      rw [callsBetween_inUse, getElem_inUse, getElem_inUse]
      rfl
    rw [PlainLinkage.step, hs.best?_eq hp, Option.map_some]
    simp only [hjoined, hs.orderedInsert_joined (hs.slotAt_lt_iff.1 hp.lt) hsound]

/-- The plain linkage makes the same clusters as the linkage does until one is left. -/
theorem merges_inUse (hm : m.Bounded) {steps : Nat} (id : Int)
    (hlen : s.slots.length = steps + 1) :
    PlainLinkage.merges m id s.inUse = run m id steps s := by
  induction steps generalizing s id with
  | zero =>
      rw [run]
      exact PlainLinkage.merges_of_length_le_one (by rw [length_inUse, hlen])
  | succ steps ih =>
      obtain ⟨c, s', hstep, hs', hlen', hplain⟩ := hs.plain_step hm id (by omega)
      rw [PlainLinkage.merges_of_step hplain, run, hstep]
      exact congrArg (c :: ·) (ih hs' (id + 1) (by omega))

end Sound

end Linkage

theorem Linkage.inUse_start (m : CouplingMatrix) :
    (Linkage.start m).inUse = (Dendrogram.ofMatrix m).leaves := by
  simp [Linkage.inUse, Dendrogram.ofMatrix]

/-- **The dendrogram has exactly the clusters of the plain linkage**: for calls that are accepted
and whose counts sum to less than `2 ^ 63`, the cached table and the search in it make the same
clusters, with the same identifiers, members, children and couplings and in the same order, as
counting all calls between all clusters anew for each join. -/
theorem Dendrogram.merges_eq_plain {units : List CodeUnit} {calls : List Call}
    {m : CouplingMatrix} (hbuild : CouplingMatrix.build units calls = .ok m)
    (hunits : 2 ≤ units.length) (hsum : sumOf (calls.map (·.count)) < 2 ^ 63) :
    (Dendrogram.ofMatrix m).merges =
        PlainLinkage.merges m units.length (Dendrogram.ofMatrix m).leaves ∧
      (Dendrogram.ofMatrix m).merges.length = units.length - 1 := by
  have hm := CouplingMatrix.bounded_of_build hbuild hsum
  have hsize := CouplingMatrix.size_of_build hbuild
  have hslots : (Linkage.start m).slots.length = m.units.size - 1 + 1 := by
    rw [Linkage.start, List.length_finRange]
    omega
  obtain ⟨_, -, hlen⟩ := Dendrogram.exists_forest hm (by omega)
  have hplain := (Linkage.Sound.start m).merges_inUse hm m.units.size hslots
  rw [Linkage.inUse_start] at hplain
  rw [← hsize]
  exact ⟨hplain.symm, hlen⟩

/-- In the small call graph two pairs of units have the most calls, and three clusters are made. -/
theorem Dendrogram.merges_eq_plain_square : ∃ m : CouplingMatrix,
    CouplingMatrix.build CallGraph.square.units CallGraph.square.calls = .ok m ∧
      (Dendrogram.ofMatrix m).merges =
        PlainLinkage.merges m 4 (Dendrogram.ofMatrix m).leaves ∧
      (Dendrogram.ofMatrix m).merges.length = 3 := by
  obtain ⟨m, hm⟩ := CouplingMatrix.exists_ofGraph_square
  exact ⟨m, hm, Dendrogram.merges_eq_plain hm (by decide) (by decide)⟩

end Cohesion
