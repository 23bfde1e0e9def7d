/-
Components are joined last.

Two units are connected when a chain of calls leads from one to the other.  As long as some two
clusters have calls between them, such clusters are joined, so no cluster leaves its component.
When no two clusters have calls between them any more, every cluster is a whole component, and from
then on the first two clusters are joined again and again: the components are added one by one, in
the order of their smallest positions.

Main definitions:
* `CouplingMatrix.callGraph` — the units as a graph;
* `CouplingMatrix.components` — its components, by their smallest positions;
* `CouplingMatrix.Connects` — a cluster lies in one component;
* `Linkage.Silent` — no two clusters in use have calls between them.

Main results:
* `Linkage.Forest.exists_silent` — joins with calls between them lead to a silent state;
* `Linkage.Forest.indices_eq_component` — in a silent state the clusters in use are the components;
* `Linkage.Sound.run_silent` — the joins that a silent state leads to;
* `Dendrogram.merges_components` — the merges within components, and those of components.
-/
import Cohesion.Proofs.Clustering.Accounting
import Mathlib.Combinatorics.SimpleGraph.Connectivity.Finite

set_option autoImplicit false

namespace Cohesion

namespace CouplingMatrix

/-! ### Components -/

/-- The units of a matrix as a graph: different units with calls between them are joined. -/
def callGraph (m : CouplingMatrix) : SimpleGraph (Fin m.units.size) where
  Adj i j := i ≠ j ∧ 0 < m.symmetric.get i j
  symm := by
    refine ⟨fun i j h => ⟨h.1.symm, ?_⟩⟩
    rw [symmetric_get, Int64.add_comm, ← symmetric_get]
    exact h.2
  loopless := ⟨fun _ h => h.1 rfl⟩

instance (m : CouplingMatrix) : DecidableRel m.callGraph.Adj := fun i j =>
  inferInstanceAs (Decidable (i ≠ j ∧ 0 < m.symmetric.get i j))

/-- The positions that are connected with a position, in ascending order. -/
def component (m : CouplingMatrix) (i : Fin m.units.size) : List (Fin m.units.size) :=
  (List.finRange m.units.size).filter fun j => m.callGraph.Reachable i j

/-- The smallest positions of the components, in ascending order. -/
def componentRoots (m : CouplingMatrix) : List (Fin m.units.size) :=
  (List.finRange m.units.size).filter fun i => ∀ j, m.callGraph.Reachable i j → i ≤ j

/-- The components, by their smallest positions. -/
def components (m : CouplingMatrix) : List (List (Fin m.units.size)) :=
  m.componentRoots.map m.component

/-- A cluster lies in one component. -/
def Connects (m : CouplingMatrix) (c : Cluster) : Prop :=
  ∀ i j : Fin m.units.size, (i.val : Int) ∈ c.indices → (j.val : Int) ∈ c.indices →
    m.callGraph.Reachable i j

variable {m : CouplingMatrix}

theorem adj_iff {i j : Fin m.units.size} :
    m.callGraph.Adj i j ↔ i ≠ j ∧ 0 < m.weight i.val j.val := by
  rw [weight_coe]
  exact and_congr_right fun _ => Int64.lt_iff_toInt_lt

theorem mem_component {i j : Fin m.units.size} :
    j ∈ m.component i ↔ m.callGraph.Reachable i j := by
  simp [component]

theorem mem_componentRoots {i : Fin m.units.size} :
    i ∈ m.componentRoots ↔ ∀ j, m.callGraph.Reachable i j → i ≤ j := by
  simp [componentRoots]

/-- Every position is in a component, with all positions that are connected with it. -/
theorem exists_component (i : Fin m.units.size) :
    ∃ C ∈ m.components, ∀ j, m.callGraph.Reachable i j → j ∈ C := by
  obtain ⟨r, hr, hmin⟩ := ((Finset.univ : Finset (Fin m.units.size)).filter
    (m.callGraph.Reachable i)).exists_min_image id ⟨i, by simp⟩
  have hir : m.callGraph.Reachable i r := by simpa using hr
  have hroot : r ∈ m.componentRoots :=
    mem_componentRoots.2 fun j hj => hmin j (by simpa using hir.trans hj)
  exact ⟨m.component r, List.mem_map_of_mem hroot, fun j hj => mem_component.2 (hir.symm.trans hj)⟩

theorem connects_leafAt (i : Fin m.units.size) : m.Connects (m.leafAt i) := by
  intro j k hj hk
  have hji : j = i := Fin.ext (Int.ofNat_inj.1 (List.mem_singleton.1 hj))
  have hki : k = i := Fin.ext (Int.ofNat_inj.1 (List.mem_singleton.1 hk))
  rw [hji, hki]

/-- Two clusters with calls between them lie in the same component. -/
theorem Connects.join {l r : Cluster} (hl : m.Linked l) (hr : m.Linked r)
    (hdisj : l.indices.Disjoint r.indices) (hcl : m.Connects l) (hcr : m.Connects r)
    (hpos : 0 < crossSum m.weight l.indices r.indices) (n : Int) (k : Binary64) :
    m.Connects (Cluster.join n l r k) := by
  obtain ⟨a, ha, b, hb, hab⟩ := exists_of_crossSum_pos hpos
  obtain ⟨p, rfl⟩ := hl.exists_position ha
  obtain ⟨q, rfl⟩ := hr.exists_position hb
  have hpq : m.callGraph.Reachable p q := by
    refine (adj_iff.2 ⟨?_, hab⟩).reachable
    rintro rfl
    exact hdisj ha hb
  intro i j hi hj
  rcases Cluster.mem_indices_join.1 hi with hi | hi <;>
    rcases Cluster.mem_indices_join.1 hj with hj | hj
  · exact hcl i j hi hj
  · exact (hcl i p hi ha).trans (hpq.trans (hcr q j hb hj))
  · exact (hcr i q hi hb).trans (hpq.symm.trans (hcl p j ha hj))
  · exact hcr i j hi hj

theorem Connects.exists_component {c : Cluster} (hc : m.Connects c) (hlinked : m.Linked c) :
    ∃ C ∈ m.components, c.indices ⊆ C.map fun i => (i.val : Int) := by
  obtain ⟨a, ha⟩ := List.exists_mem_of_ne_nil _ hlinked.members_ne_nil
  have ha' : a.index ∈ c.indices := List.mem_map_of_mem ha
  obtain ⟨i, hi⟩ := hlinked.exists_position ha'
  obtain ⟨C, hC, hall⟩ := CouplingMatrix.exists_component i
  refine ⟨C, hC, fun b hb => ?_⟩
  obtain ⟨j, rfl⟩ := hlinked.exists_position hb
  exact List.mem_map_of_mem (hall j (hc i j (hi ▸ ha') hb))

end CouplingMatrix

namespace Linkage

variable {m : CouplingMatrix}

/-- No two clusters in use have calls between them. -/
def Silent (m : CouplingMatrix) (s : Linkage m.units.size) : Prop :=
  ∀ x ∈ s.slots, ∀ y ∈ s.slots, x ≠ y → s.calls m x y = 0

namespace Sound

variable {s : Linkage m.units.size} (hs : s.Sound m)

include hs

theorem slot_mem_indices {x : Fin m.units.size} (hx : x ∈ s.slots) :
    (x.val : Int) ∈ (s.node x).indices :=
  (List.min?_eq_some_iff.1 (hs.least x hx)).1

theorem slot_le {x i : Fin m.units.size} (hx : x ∈ s.slots)
    (hi : (i.val : Int) ∈ (s.node x).indices) : x ≤ i := by
  have hle := (List.min?_eq_some_iff.1 (hs.least x hx)).2 _ hi
  exact Fin.le_def.2 (Int.ofNat_le.1 hle)

end Sound

/-! ### Silent states -/

namespace Forest

variable {made : List Cluster} {s : Linkage m.units.size} (hf : Forest m made s)

include hf

theorem exists_slot (i : Fin m.units.size) :
    ∃ x ∈ s.slots, (i.val : Int) ∈ (s.node x).indices := by
  obtain ⟨x, hx, hix⟩ := List.mem_flatMap.1 (hf.covers.mem_iff.2 (m.mem_members i))
  exact ⟨x, hx, List.mem_map_of_mem hix⟩

/-- In a silent state no chain of calls leads out of a cluster. -/
theorem mem_of_reachable (hm : m.Bounded) (hsilent : s.Silent m) {x i j : Fin m.units.size}
    (hx : x ∈ s.slots) (hi : (i.val : Int) ∈ (s.node x).indices)
    (h : m.callGraph.Reachable i j) : (j.val : Int) ∈ (s.node x).indices := by
  rw [SimpleGraph.reachable_iff_reflTransGen] at h
  induction h with
  | refl => exact hi
  | @tail j k _ hadj ih =>
      obtain ⟨y, hy, hk⟩ := hf.exists_slot k
      by_cases hxy : x = y
      · rwa [hxy]
      · -- otherwise there would be calls between the clusters of two slots
        have hle : m.weight j.val k.val ≤ s.calls m x y := le_crossSum hm.weight_nonneg ih hk
        have hpos := (CouplingMatrix.adj_iff.1 hadj).2
        rw [hsilent x hx y hy hxy] at hle
        omega

variable (hm : m.Bounded) (hsilent : s.Silent m)
  (hconn : ∀ x ∈ s.slots, m.Connects (s.node x))

include hm hsilent hconn

theorem mem_iff_reachable {x i : Fin m.units.size} (hx : x ∈ s.slots) :
    (i.val : Int) ∈ (s.node x).indices ↔ m.callGraph.Reachable x i := by
  constructor
  · exact hconn x hx x i (hf.sound.slot_mem_indices hx)
  · exact hf.mem_of_reachable hm hsilent hx (hf.sound.slot_mem_indices hx)

/-- In a silent state the slots in use are the smallest positions of the components. -/
theorem slots_eq_componentRoots : s.slots = m.componentRoots := by
  have hroots : m.componentRoots.Pairwise (· < ·) :=
    ((List.sortedLT_finRange m.units.size).pairwise).filter _
  refine hf.sound.ascending.eq_of_mem_iff hroots fun i => ?_
  rw [CouplingMatrix.mem_componentRoots]
  constructor
  · intro hi j hj
    exact hf.sound.slot_le hi ((hf.mem_iff_reachable hm hsilent hconn hi).2 hj)
  · intro hi
    obtain ⟨x, hx, hix⟩ := hf.exists_slot i
    have hxi := (hf.mem_iff_reachable hm hsilent hconn hx).1 hix
    have heq : i = x := le_antisymm (hi x hxi.symm) (hf.sound.slot_le hx hix)
    rwa [heq]

/-- In a silent state the clusters in use are the components. -/
theorem indices_eq_component {x : Fin m.units.size} (hx : x ∈ s.slots) :
    (s.node x).indices = (m.component x).map fun i => (i.val : Int) := by
  have hcomponent : ((m.component x).map fun i => (i.val : Int)).Pairwise (· < ·) := by
    rw [List.pairwise_map]
    exact (((List.sortedLT_finRange m.units.size).pairwise).filter _).imp
      fun h => Int.ofNat_lt.2 (Fin.lt_def.1 h)
  refine (hf.linked x hx).sorted.eq_of_mem_iff hcomponent fun a => ?_
  rw [List.mem_map]
  constructor
  · intro ha
    obtain ⟨i, rfl⟩ := (hf.linked x hx).exists_position ha
    have hi := (hf.mem_iff_reachable hm hsilent hconn hx).1 ha
    exact ⟨i, CouplingMatrix.mem_component.2 hi, rfl⟩
  · rintro ⟨i, hi, rfl⟩
    exact (hf.mem_iff_reachable hm hsilent hconn hx).2 (CouplingMatrix.mem_component.1 hi)

end Forest

/-! ### Joins of clusters with calls between them -/

/-- Two clusters with calls between them are not silent alone: a pair in order has calls. -/
theorem exists_lt_of_not_silent (hm : m.Bounded) {s : Linkage m.units.size}
    (h : ¬s.Silent m) : ∃ x ∈ s.slots, ∃ y ∈ s.slots, x < y ∧ 0 < s.calls m x y := by
  unfold Silent at h
  push Not at h
  obtain ⟨x, hx, y, hy, hxy, hne⟩ := h
  have hpos : 0 < s.calls m x y := lt_of_le_of_ne (calls_nonneg hm s x y) (Ne.symm hne)
  rcases lt_or_gt_of_ne hxy with hlt | hgt
  · exact ⟨x, hx, y, hy, hlt, hpos⟩
  · exact ⟨y, hy, x, hx, hgt, by rwa [calls_comm]⟩

/-- While there are calls between two clusters, a step joins such clusters within a component. -/
theorem Forest.step_connected (hm : m.Bounded) {made : List Cluster} {s : Linkage m.units.size}
    (hf : Forest m made s) (hconn : ∀ x ∈ s.slots, m.Connects (s.node x)) (h : ¬s.Silent m) :
    ∃ c s', s.step m ((m.units.size : Int) + (made.length : Int)) = some (c, s') ∧
      Forest m (made ++ [c]) s' ∧ (∀ x ∈ s'.slots, m.Connects (s'.node x)) ∧
      s'.slots.length < s.slots.length ∧ m.Linked c ∧ 0 < m.joinedCalls c ∧ m.Connects c := by
  obtain ⟨a, ha, b, hb, hab, hcalls⟩ := exists_lt_of_not_silent hm h
  have htwo := two_le_length ha hb (ne_of_lt hab)
  obtain ⟨x, y, c, s', hp, hc, hs', hstep, hf'⟩ := hf.step hm htwo
  have hxy : x ≠ y := ne_of_lt hp.lt
  -- the pair that is joined has at least as many calls
  have hpos : 0 < s.calls m x y := lt_of_lt_of_le hcalls (hp.greatest a ha b hb hab)
  have hcc : m.Connects c := by
    rw [hc]
    exact .join (hf.linked x hp.first_mem) (hf.linked y hp.second_mem)
      (hf.sound.disjoint hp.first_mem hp.second_mem hxy)
      (hconn x hp.first_mem) (hconn y hp.second_mem) hpos _ _
  have hnode : ∀ z, s'.node z = if z = x then c else s.node z := by
    intro z
    rw [hs']
    exact node_after s (s.scored m x y) c z
  have hslots : s'.slots = s.slots.erase y := by
    rw [hs']
    rfl
  have hx : x ∈ s'.slots := by
    rw [hslots]
    exact (List.mem_erase_of_ne hxy).2 hp.first_mem
  have hlinked := hf'.linked x hx
  rw [hnode, if_pos rfl] at hlinked
  refine ⟨c, s', hstep, hf', ?_, ?_, hlinked, ?_, hcc⟩
  · intro z hz
    rw [hnode]
    split
    · exact hcc
    · rw [hslots] at hz
      exact hconn z (List.mem_of_mem_erase hz)
  · rw [hslots, List.length_erase_of_mem hp.second_mem]
    omega
  · rw [hc]
    exact hpos

/-- Joins of clusters with calls between them, each within a component, lead to a silent state. -/
theorem Forest.exists_silent (hm : m.Bounded) {made : List Cluster} {s : Linkage m.units.size}
    (hf : Forest m made s) (hconn : ∀ x ∈ s.slots, m.Connects (s.node x)) :
    ∃ new s', Steps m ((m.units.size : Int) + (made.length : Int)) s new s' ∧
      Forest m (made ++ new) s' ∧ s'.Silent m ∧ (∀ x ∈ s'.slots, m.Connects (s'.node x)) ∧
      ∀ c ∈ new, m.Linked c ∧ 0 < m.joinedCalls c ∧ m.Connects c := by
  -- each join leaves one slot less in use
  induction hlen : s.slots.length using Nat.strong_induction_on generalizing made s with
  | _ k ih =>
    by_cases hsilent : s.Silent m
    · refine ⟨[], s, .nil _ s, ?_, hsilent, hconn, fun c hc => (by cases hc)⟩
      rwa [List.append_nil]
    · obtain ⟨c, s', hstep, hf', hconn', hslots, hc⟩ := hf.step_connected hm hconn hsilent
      obtain ⟨new, s'', hsteps, hf'', hsilent'', hconn'', hnew⟩ :=
        ih _ (hlen ▸ hslots) hf' hconn' rfl
      have hid : (m.units.size : Int) + ((made ++ [c]).length : Int) =
          (m.units.size : Int) + (made.length : Int) + 1 := by
        rw [List.length_append, List.length_singleton]
        omega
      rw [hid] at hsteps
      refine ⟨c :: new, s'', .cons hstep hsteps, ?_, hsilent'', hconn'', ?_⟩
      · rwa [List.append_cons]
      · exact List.forall_mem_cons.2 ⟨hc, hnew⟩

/-! ### Joins of components -/

namespace Sound

variable {s : Linkage m.units.size} (hs : s.Sound m)

include hs

/-- In a silent state the first two slots are picked. -/
theorem picks_of_silent (hsilent : s.Silent m) {x y x' y' : Fin m.units.size}
    {rest : List (Fin m.units.size)} (hslots : s.slots = x :: y :: rest)
    (hp : s.Picks m x' y') : x' = x ∧ y' = y := by
  have hascending := hs.ascending
  rw [hslots, List.pairwise_cons, List.pairwise_cons] at hascending
  obtain ⟨hx, hy, -⟩ := hascending
  have hxy : x < y := hx y List.mem_cons_self
  have hxmem : x ∈ s.slots := by rw [hslots]; exact List.mem_cons_self
  have hymem : y ∈ s.slots := by rw [hslots]; exact List.mem_cons_of_mem _ List.mem_cons_self
  have hzero : s.calls m x y = s.calls m x' y' := by
    rw [hsilent x hxmem y hymem (ne_of_lt hxy),
      hsilent x' hp.first_mem y' hp.second_mem (ne_of_lt hp.lt)]
  have hfirst := hp.first_mem
  have hsecond := hp.second_mem
  have hlt := hp.lt
  rw [hslots, List.mem_cons] at hfirst hsecond
  rcases hp.earliest x hxmem y hymem hxy hzero with hless | ⟨heq, hle⟩
  · -- no slot in use comes before the first one
    rcases hfirst with rfl | hfirst
    · exact absurd hless (lt_irrefl _)
    · exact absurd (hx x' hfirst) (lt_asymm hless)
  · refine ⟨heq, ?_⟩
    rcases hsecond with rfl | hsecond
    · rw [heq] at hlt
      exact absurd hlt (lt_irrefl _)
    · rcases List.mem_cons.1 hsecond with rfl | hsecond
      · rfl
      · exact absurd (hy y' hsecond) (not_lt.2 hle)

/-- Joining clusters without calls between them leaves no calls between clusters. -/
theorem silent_after (hm : m.Bounded) (hsilent : s.Silent m) {x y : Fin m.units.size}
    (hp : s.Picks m x y) (id : Int) :
    (s.after (s.scored m x y) (s.joined m id x y)).Silent m := by
  intro i hi j hj hij
  obtain ⟨hiy, hi⟩ := hs.slots_nodup.mem_erase_iff.1 hi
  obtain ⟨hjy, hj⟩ := hs.slots_nodup.mem_erase_iff.1 hj
  have hx := hp.first_mem
  have hy := hp.second_mem
  have hcalls := calls_after s (s.scored m x y) id hij
  rw [hs.merged_scored hm id hp] at hcalls
  rw [hcalls]
  split
  · rename_i hix
    have hxj : x ≠ j := fun h => hij (hix.trans h)
    show s.calls m x j + s.calls m y j = 0
    rw [hsilent x hx j hj hxj, hsilent y hy j hj (Ne.symm hjy), add_zero]
  · split
    · rename_i hix hjx
      show s.calls m i x + s.calls m i y = 0
      rw [hsilent i hi x hx hix, hsilent i hi y hy hiy, add_zero]
    · exact hsilent i hi j hj hij

/-- In a silent state a step joins the clusters of the first two slots and stays silent. -/
theorem step_silent (hm : m.Bounded) (hsilent : s.Silent m) {x y : Fin m.units.size}
    {rest : List (Fin m.units.size)} (hslots : s.slots = x :: y :: rest) (id : Int) :
    ∃ s', s.step m id = some (s.joined m id x y, s') ∧ s'.Sound m ∧ s'.Silent m ∧
      s'.slots = x :: rest ∧ s'.node x = s.joined m id x y ∧
      ∀ z ∈ rest, s'.node z = s.node z := by
  obtain ⟨x', y', hp, hstep⟩ := hs.exists_step hm id (by rw [hslots]; simp)
  obtain ⟨rfl, rfl⟩ := hs.picks_of_silent hsilent hslots hp
  have hnode : ∀ z, (s.after (s.scored m x' y') (s.joined m id x' y')).node z =
      if z = x' then s.joined m id x' y' else s.node z := node_after s _ _
  refine ⟨_, hstep, hs.after_picks hm id hp, hs.silent_after hm hsilent hp id, ?_, ?_, ?_⟩
  · have hne : x' ≠ y' := ne_of_lt hp.lt
    show s.slots.erase y' = x' :: rest
    rw [hslots, List.erase_cons_tail (by simpa using hne), List.erase_cons_head]
  · rw [hnode, if_pos rfl]
  · intro z hz
    have hnodup := hs.slots_nodup
    rw [hslots, List.nodup_cons, List.mem_cons] at hnodup
    have hzx : z ≠ x' := by
      rintro rfl
      exact hnodup.1 (Or.inr hz)
    rw [hnode, if_neg hzx]

/-- From a silent state on, the cluster of the first slot takes in those of the others, one after
the other. -/
theorem run_silent (hm : m.Bounded) (hsilent : s.Silent m) {x : Fin m.units.size}
    {rest : List (Fin m.units.size)} (hslots : s.slots = x :: rest) (id : Int) {k : Nat}
    (hk : k < rest.length) :
    ∃ c l, (run m id rest.length s)[k]? = some c ∧ c.children = [l, s.node rest[k]] ∧
      m.joinedCalls c = 0 ∧
      l.indices.Perm ((x :: rest.take k).flatMap fun z => (s.node z).indices) := by
  induction rest generalizing s id k with
  | nil => exact absurd hk (Nat.not_lt_zero k)
  | cons y rest ih =>
      obtain ⟨s', hstep, hs', hsilent', hslots', hx, hother⟩ :=
        hs.step_silent hm hsilent hslots id
      have hrun : run m id (y :: rest).length s =
          s.joined m id x y :: run m (id + 1) rest.length s' := by
        rw [List.length_cons, run, hstep]
      rw [hrun]
      cases k with
      | zero =>
          have hne : x ≠ y := by
            have hnodup := hs.slots_nodup
            rw [hslots, List.nodup_cons] at hnodup
            exact fun h => hnodup.1 (h ▸ List.mem_cons_self)
          refine ⟨_, s.node x, rfl, rfl, ?_, ?_⟩
          · exact hsilent x (by rw [hslots]; simp) y (by rw [hslots]; simp) hne
          · simp
      | succ k =>
          have hk' : k < rest.length := by simpa using hk
          obtain ⟨c, l, hc, hchildren, hzero, hperm⟩ := ih hs' hsilent' hslots' (id + 1) hk'
          refine ⟨c, l, hc, ?_, hzero, ?_⟩
          · rw [hchildren, hother _ (List.getElem_mem hk')]
            rfl
          · -- the members of the first two clusters now stand together
            have hrest : ((rest.take k).flatMap fun z => (s'.node z).indices) =
                (rest.take k).flatMap fun z => (s.node z).indices :=
              List.flatMap_congr fun z hz => by rw [hother z (List.mem_of_mem_take hz)]
            rw [List.flatMap_cons, hx, hrest] at hperm
            rw [List.take_succ_cons, List.flatMap_cons, List.flatMap_cons, ← List.append_assoc]
            exact hperm.trans ((Cluster.indices_join_perm _ _ _ _).append_right _)

end Sound

end Linkage

namespace Dendrogram

variable {m : CouplingMatrix}

/-! ### The whole dendrogram -/

/-- The merges with calls between their children, and the silent state that they lead to. -/
theorem exists_silent (hm : m.Bounded) (hn : 0 < m.units.size) :
    ∃ new s x rest, Linkage.Forest m new s ∧ s.Silent m ∧
      (∀ z ∈ s.slots, m.Connects (s.node z)) ∧ s.slots = x :: rest ∧
      (∀ c ∈ new, m.Linked c ∧ 0 < m.joinedCalls c ∧ m.Connects c) ∧
      (ofMatrix m).merges = new ++
        Linkage.run m ((m.units.size : Int) + (new.length : Int)) rest.length s := by
  have hstart : ∀ z ∈ (Linkage.start m).slots, m.Connects ((Linkage.start m).node z) := by
    intro z _
    rw [Linkage.node_start]
    exact CouplingMatrix.connects_leafAt z
  obtain ⟨new, s, hsteps, hf, hsilent, hconn, hnew⟩ :=
    (Linkage.Forest.start m).exists_silent hm hstart
  rw [List.nil_append] at hf
  obtain ⟨y, hy, -⟩ := hf.exists_slot ⟨0, hn⟩
  obtain ⟨x, rest, hslots⟩ := List.exists_cons_of_ne_nil (List.ne_nil_of_mem hy)
  refine ⟨new, s, x, rest, hf, hsilent, hconn, hslots, hnew, ?_⟩
  have hcount := hf.count
  rw [hslots, List.length_cons] at hcount
  have hlen : m.units.size - 1 = new.length + rest.length := by omega
  have hrun := hsteps.run_eq rest.length
  rw [List.length_nil, Int.natCast_zero, Int.add_zero] at hrun
  rw [ofMatrix, hlen]
  exact hrun

/-- **Units are joined within components first, then component by component**: for accepted calls
between at least two units whose counts sum to less than `2 ^ 63`, the merges but for one less than
there are components have calls between their children and lie in single components; the others have
none, and each of them joins the components before it, on the left, with the next one. -/
theorem merges_components {units : List CodeUnit} {calls : List Call}
    (hbuild : CouplingMatrix.build units calls = .ok m) (hunits : 2 ≤ units.length)
    (hsum : sumOf (calls.map (·.count)) < 2 ^ 63) :
    (ofMatrix m).merges.length = units.length - 1 ∧
    1 ≤ m.components.length ∧ m.components.length ≤ units.length ∧
    (∀ c ∈ (ofMatrix m).merges.take (units.length - m.components.length),
      0 < m.joinedCalls c ∧
      ∃ C ∈ m.components, c.indices ⊆ C.map fun i => (i.val : Int)) ∧
    ∀ k, ∀ hk : k + 1 < m.components.length, ∃ c l r,
      (ofMatrix m).merges[units.length - m.components.length + k]? = some c ∧
      c.children = [l, r] ∧ m.joinedCalls c = 0 ∧
      l.indices.Perm ((m.components.take (k + 1)).flatten.map fun i => (i.val : Int)) ∧
      r.indices = m.components[k + 1].map fun i => (i.val : Int) := by
  have hm := CouplingMatrix.bounded_of_build hbuild hsum
  have hsize := CouplingMatrix.size_of_build hbuild
  obtain ⟨_, -, hlength⟩ := exists_forest hm (by omega)
  obtain ⟨new, s, x, rest, hf, hsilent, hconn, hslots, hnew, hmerges⟩ :=
    exists_silent hm (by omega)
  have hroots := hf.slots_eq_componentRoots hm hsilent hconn
  have hcomponents : m.components = (x :: rest).map m.component := by
    rw [CouplingMatrix.components, ← hroots, hslots]
  have hlen : m.components.length = rest.length + 1 := by
    rw [hcomponents, List.length_map, List.length_cons]
  have hnewlen : units.length - m.components.length = new.length := by
    have hcount := hf.count
    rw [hslots, List.length_cons] at hcount
    omega
  have hindices : ∀ z ∈ x :: rest,
      (s.node z).indices = (m.component z).map fun i => (i.val : Int) :=
    fun z hz => hf.indices_eq_component hm hsilent hconn (hslots ▸ hz)
  refine ⟨by omega, by omega, ?_, ?_, ?_⟩
  · have hcount := hf.count
    rw [hslots, List.length_cons] at hcount
    omega
  · intro c hc
    rw [hnewlen, hmerges, List.take_left] at hc
    obtain ⟨hlinked, hpos, hcc⟩ := hnew c hc
    exact ⟨hpos, hcc.exists_component hlinked⟩
  · intro k hk
    have hk' : k < rest.length := by omega
    obtain ⟨c, l, hc, hchildren, hzero, hperm⟩ := hf.sound.run_silent hm hsilent hslots
      ((m.units.size : Int) + (new.length : Int)) hk'
    refine ⟨c, l, s.node rest[k], ?_, hchildren, hzero, ?_, ?_⟩
    · rw [hnewlen, hmerges, List.getElem?_append_right (Nat.le_add_right _ _),
        Nat.add_sub_cancel_left]
      exact hc
    · have hleft : ((m.components.take (k + 1)).flatten.map fun i => (i.val : Int)) =
          (x :: rest.take k).flatMap fun z => (s.node z).indices := by
        rw [hcomponents, ← List.map_take, List.take_succ_cons, List.map_flatten, List.map_map,
          List.flatMap_def]
        refine congrArg List.flatten (List.map_congr_left fun z hz => ?_)
        refine (hindices z ?_).symm
        exact (List.cons_subset_cons x (List.take_subset k rest)) hz
      rw [hleft]
      exact hperm
    · simp only [hcomponents, List.getElem_map, List.getElem_cons_succ]
      exact hindices _ (List.mem_cons_of_mem x (List.getElem_mem hk'))

end Dendrogram

/-- Three units, of which only the first and the last have calls between them. -/
def CallGraph.islands : CallGraph where
  units := [.named "A", .named "B", .named "C"]
  calls := [⟨.named "C", .named "A", 2⟩]

/-- The merge without calls joins the component of the first and the last unit with the unit
between them. -/
theorem Dendrogram.merges_components_islands : ∃ m : CouplingMatrix,
    CouplingMatrix.build CallGraph.islands.units CallGraph.islands.calls = .ok m ∧
      m.components.map (List.map Fin.val) = [[0, 2], [1]] ∧
      ∃ c l r, (Dendrogram.ofMatrix m).merges[1]? = some c ∧ c.children = [l, r] ∧
        m.joinedCalls c = 0 ∧ l.indices.Perm [0, 2] ∧ r.indices = [1] := by
  obtain ⟨m, hm, hcomponents⟩ : ∃ m : CouplingMatrix,
      CouplingMatrix.build CallGraph.islands.units CallGraph.islands.calls = .ok m ∧
        m.components.map (List.map Fin.val) = [[0, 2], [1]] :=
    ⟨_, by with_unfolding_all rfl, by decide +kernel⟩
  have hlen : m.components.length = 2 := by
    have h := congrArg List.length hcomponents
    rwa [List.length_map] at h
  obtain ⟨-, -, -, -, hlast⟩ := merges_components hm (by decide) (by decide)
  obtain ⟨c, l, r, hc, hchildren, hzero, hl, hr⟩ := hlast 0 (by omega)
  have hcast : ∀ C : List (Fin m.units.size),
      (C.map fun i => (i.val : Int)) = (C.map Fin.val).map Int.ofNat := by simp
  have hfirst : m.components.take 1 = [m.components[0]] := by
    rw [List.take_one, List.head?_eq_getElem?, List.getElem?_eq_getElem]
    rfl
  have hvals : ∀ k (hk : k < m.components.length), m.components[k].map Fin.val =
      (m.components.map (List.map Fin.val)).getD k [] := by
    intro k hk
    simp [hk]
  simp only [Nat.zero_add, hfirst, List.flatten_singleton, hcast, hvals, hcomponents] at hl hr
  rw [hlen] at hc
  exact ⟨m, hm, hcomponents, c, l, r, hc, hchildren, hzero, hl, hr⟩

end Cohesion
