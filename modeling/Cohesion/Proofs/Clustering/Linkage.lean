/-
What the linkage keeps.

Between two joins the clusters in use are disjoint, each lives in the slot of its smallest
position, and the table holds the word of the calls between any two of them; what the table says
of slots that are out of use does not matter.  In a bounded matrix these words are exact, so the
best pair is the first pair of clusters with the most calls between them, and the nodes of the
trees in use are exactly the units and the clusters made so far.

Main definitions:
* `Linkage.node` — the cluster in a slot;
* `Linkage.Steps` — several joins in a row;
* `Linkage.calls` — the calls between the clusters in two slots, from the matrix;
* `Linkage.Sound` — what holds between two joins, for every matrix;
* `Linkage.Picks` — two slots are the first pair with the most calls between their clusters;
* `Linkage.Forest` — what holds between two joins in a bounded matrix.

Main results:
* `Linkage.Sound.start`, `Linkage.Sound.after` — the first state is sound, and joins keep it so;
* `Linkage.Sound.exists_picks` — in a bounded matrix a join takes the first pair with most calls;
* `Linkage.Picks.unique`, `Linkage.Sound.step_of_picks` — there is only one such pair;
* `Linkage.Forest.step`, `Linkage.Forest.exists_steps` — one join, and any number of joins;
* `Dendrogram.exists_forest` — the state in which the dendrogram of a bounded matrix is finished.
-/
import Cohesion.Clustering.Dendrogram
import Cohesion.Proofs.Clustering.BestPair
import Cohesion.Proofs.Clustering.Tree

set_option autoImplicit false

namespace Cohesion

/-- Two elements of a list become one: what the elements hold is kept, up to what the new one holds
in place of the two. -/
theorem flatMap_fuse {α β : Type} [DecidableEq α] {l : List α} {x y : α} (hl : l.Nodup)
    (hx : x ∈ l) (hy : y ∈ l) (hxy : x ≠ y) {f g : α → List β}
    (hfg : ∀ z ∈ l, z ≠ x → z ≠ y → g z = f z) :
    ∃ rest, (l.flatMap f).Perm (f x ++ f y ++ rest) ∧
      ((l.erase y).flatMap g).Perm (g x ++ rest) := by
  have hx' : x ∈ l.erase y := (List.mem_erase_of_ne hxy).2 hx
  have hrest : ((l.erase y).erase x).flatMap g = ((l.erase y).erase x).flatMap f := by
    refine List.flatMap_congr fun z hz => ?_
    obtain ⟨hzx, hz⟩ := (hl.erase y).mem_erase_iff.1 hz
    obtain ⟨hzy, hz⟩ := hl.mem_erase_iff.1 hz
    exact hfg z hz hzx hzy
  refine ⟨((l.erase y).erase x).flatMap f, ?_, ?_⟩
  · have hperm : l.Perm (x :: y :: (l.erase y).erase x) :=
      ((List.perm_cons_erase hy).trans ((List.perm_cons_erase hx').cons y)).trans (.swap ..)
    have h := hperm.flatMap_right f
    rwa [List.flatMap_cons, List.flatMap_cons, ← List.append_assoc] at h
  · have h := (List.perm_cons_erase hx').flatMap_right g
    rwa [List.flatMap_cons, hrest] at h

theorem subperm_map {α β : Type} {xs ys : List α} (h : xs.Subperm ys) (f : α → β) :
    (xs.map f).Subperm (ys.map f) := by
  obtain ⟨part, hperm, hsub⟩ := h
  exact ⟨part.map f, hperm.map f, hsub.map f⟩

theorem nodup_of_subperm {α : Type} {xs ys : List α} (h : xs.Subperm ys) (hy : ys.Nodup) :
    xs.Nodup := by
  obtain ⟨part, hperm, hsub⟩ := h
  exact hperm.nodup_iff.1 (hy.sublist hsub)

namespace Linkage

/-! ### A join -/

section Join

variable {n : Nat}

/-- The entries of the table after a join, off the diagonal. -/
theorem get_fuse (scores : Table n) (x y : Fin n) {i j : Fin n} (hij : i ≠ j) :
    (fuse scores x y).get i j =
      if i = x then scores.get x j + scores.get y j
      else if j = x then scores.get i x + scores.get i y
      else scores.get i j := by
  have hclear : ¬(i = x ∧ j = x) := fun h => hij (h.1.trans h.2.symm)
  rw [fuse, Table.get_clear, if_neg hclear]
  by_cases hi : i = x
  · have hj : j ≠ x := fun hj => hij (hi.trans hj.symm)
    simp [hi, hj]
  · by_cases hj : j = x <;> simp [hi, hj]

/-- The cluster in a slot. -/
def node (s : Linkage n) (x : Fin n) : Cluster := s.nodes.get x

@[simp] theorem node_start (m : CouplingMatrix) (i : Fin m.units.size) :
    (Linkage.start m).node i = m.leafAt i := by
  show (Vector.ofFn m.leafAt)[i] = m.leafAt i
  simp

@[simp] theorem slots_start (m : CouplingMatrix) :
    (Linkage.start m).slots = List.finRange m.units.size := rfl

theorem merged_eq (s : Linkage n) (m : CouplingMatrix) (id : Int) (best : ScoredPair n) :
    s.merged m id best = Cluster.join id (s.node best.first) (s.node best.second)
      (m.normalize best.score.toInt) := rfl

theorem node_after (s : Linkage n) (best : ScoredPair n) (c : Cluster) (z : Fin n) :
    (s.after best c).node z = if z = best.first then c else s.node z := by
  show (s.nodes.set best.first c)[z] = if z = best.first then c else s.nodes[z]
  simp only [Fin.getElem_fin, Vector.getElem_set, Fin.ext_iff, eq_comm]

theorem slots_after (s : Linkage n) (best : ScoredPair n) (c : Cluster) :
    (s.after best c).slots = s.slots.erase best.second := rfl

end Join

/-- Several joins, of which the first has the given identifier: the clusters that they make, and the
state that they lead to. -/
inductive Steps {n : Nat} (m : CouplingMatrix) :
    Int → Linkage n → List Cluster → Linkage n → Prop
  | nil (id : Int) (s : Linkage n) : Steps m id s [] s
  | cons {id : Int} {s s' s'' : Linkage n} {c : Cluster} {cs : List Cluster}
      (first : s.step m id = some (c, s')) (others : Steps m (id + 1) s' cs s'') :
      Steps m id s (c :: cs) s''

/-- A run begins with the clusters of its first joins and goes on from where they lead. -/
theorem Steps.run_eq {n : Nat} {m : CouplingMatrix} {id : Int} {s s' : Linkage n}
    {cs : List Cluster} (h : Steps m id s cs s') (k : Nat) :
    run m id (cs.length + k) s = cs ++ run m (id + (cs.length : Int)) k s' := by
  induction h with
  | nil id s => simp
  | @cons id s s' s'' c cs hfirst _ ih =>
      have hlen : (c :: cs).length + k = (cs.length + k) + 1 := by
        rw [List.length_cons]
        omega
      have hid : id + ((c :: cs).length : Int) = id + 1 + (cs.length : Int) := by
        rw [List.length_cons]
        omega
      rw [hlen, hid, run, hfirst, List.cons_append]
      exact congrArg (c :: ·) ih

variable {m : CouplingMatrix}

/-- The calls between the clusters in two slots. -/
def calls (m : CouplingMatrix) (s : Linkage m.units.size) (x y : Fin m.units.size) : Int :=
  crossSum m.weight (s.node x).indices (s.node y).indices

/-- The calls after a join: those of the two joined clusters are added. -/
theorem calls_after (s : Linkage m.units.size) (best : ScoredPair m.units.size) (id : Int)
    {i j : Fin m.units.size} (hij : i ≠ j) :
    (s.after best (s.merged m id best)).calls m i j =
      if i = best.first then s.calls m best.first j + s.calls m best.second j
      else if j = best.first then s.calls m i best.first + s.calls m i best.second
      else s.calls m i j := by
  have hperm := Cluster.indices_join_perm id (s.node best.first) (s.node best.second)
    (m.normalize best.score.toInt)
  unfold calls
  rw [node_after, node_after]
  by_cases hi : i = best.first
  · have hj : j ≠ best.first := fun hj => hij (hi.trans hj.symm)
    rw [if_pos hi, if_pos hi, if_neg hj, ← crossSum_append_left]
    exact crossSum_perm _ hperm (.refl _)
  · rw [if_neg hi, if_neg hi]
    by_cases hj : j = best.first
    · rw [if_pos hj, if_pos hj, ← crossSum_append_right]
      exact crossSum_perm _ (.refl _) hperm
    · rw [if_neg hj, if_neg hj]

theorem calls_comm (s : Linkage m.units.size) (x y : Fin m.units.size) :
    s.calls m x y = s.calls m y x :=
  crossSum_comm m.weight_comm _ _

theorem calls_nonneg (hm : m.Bounded) (s : Linkage m.units.size) (x y : Fin m.units.size) :
    0 ≤ s.calls m x y :=
  crossSum_nonneg hm.weight_nonneg _ _

/-! ### Sound states -/

/-- What holds between two joins. -/
structure Sound (m : CouplingMatrix) (s : Linkage m.units.size) : Prop where
  /-- The slots in use ascend. -/
  ascending : s.slots.Pairwise (· < ·)
  /-- Each cluster in use lives in the slot of its smallest position. -/
  least : ∀ x ∈ s.slots, (s.node x).indices.min? = some (x.val : Int)
  /-- The members of the clusters in use are different members of the matrix. -/
  members : (s.slots.flatMap fun x => (s.node x).members).Subperm m.members
  /-- The table holds the words of the calls between the clusters in use. -/
  scores : ∀ x ∈ s.slots, ∀ y ∈ s.slots, x ≠ y → s.scores.get x y = Int64.ofInt (s.calls m x y)

namespace Sound

theorem start (m : CouplingMatrix) : (Linkage.start m).Sound m where
  ascending := List.sortedLT_finRange _ |>.pairwise
  least x _ := by simp [CouplingMatrix.leafAt, Cluster.single, Cluster.indices,
    Cluster.members]
  members := by
    refine List.Perm.subperm (.of_eq ?_)
    simp [CouplingMatrix.leafAt, Cluster.single, Cluster.members,
      CouplingMatrix.members, List.map_eq_flatMap]
  scores x _ y _ _ := by
    have hcalls : (Linkage.start m).calls m x y = m.weight x.val y.val := by
      simp [calls, crossSum, CouplingMatrix.leafAt, Cluster.single, Cluster.indices,
        Cluster.members]
    rw [hcalls, CouplingMatrix.weight_coe, Int64.ofInt_toInt]
    rfl

variable {s : Linkage m.units.size} (hs : s.Sound m)

include hs

theorem slots_nodup : s.slots.Nodup := hs.ascending.imp ne_of_lt

theorem least_eq {x : Fin m.units.size} (hx : x ∈ s.slots) : (s.node x).least = x.val :=
  Cluster.least_eq_of_min? (hs.least x hx)

/-- The positions of the clusters in two slots are different positions of the matrix. -/
theorem indices_subperm {x y : Fin m.units.size} (hx : x ∈ s.slots) (hy : y ∈ s.slots)
    (hxy : x ≠ y) : ((s.node x).indices ++ (s.node y).indices).Subperm m.positions := by
  obtain ⟨rest, hrest, -⟩ := flatMap_fuse hs.slots_nodup hx hy hxy
    (f := fun x => (s.node x).members) (fun z _ _ _ => rfl)
  have hpair : ((s.node x).members ++ (s.node y).members).Subperm m.members :=
    ((List.sublist_append_left _ rest).subperm.trans hrest.symm.subperm).trans hs.members
  have hindices := subperm_map hpair (·.index)
  rwa [List.map_append] at hindices

theorem disjoint {x y : Fin m.units.size} (hx : x ∈ s.slots) (hy : y ∈ s.slots) (hxy : x ≠ y) :
    (s.node x).indices.Disjoint (s.node y).indices :=
  (List.nodup_append'.1 (nodup_of_subperm (hs.indices_subperm hx hy hxy) m.positions_nodup)).2.2

/-- What the clusters in use have in all, after those of two different slots became one that has
what they had and some more. -/
theorem flatMap_after_perm {β : Type} (f : Cluster → List β) (best : ScoredPair m.units.size)
    (hx : best.first ∈ s.slots) (hy : best.second ∈ s.slots) (hxy : best.first ≠ best.second)
    {c : Cluster} (more : List β)
    (hc : (f c).Perm (more ++ (f (s.node best.first) ++ f (s.node best.second)))) :
    ((s.after best c).slots.flatMap fun z => f ((s.after best c).node z)).Perm
      (more ++ s.slots.flatMap fun z => f (s.node z)) := by
  have hnode := node_after s best c
  obtain ⟨rest, hbefore, hafter⟩ := flatMap_fuse hs.slots_nodup hx hy hxy
    (f := fun z => f (s.node z)) (g := fun z => f ((s.after best c).node z))
    (fun z _ hzx _ => by rw [hnode, if_neg hzx])
  rw [hnode, if_pos rfl] at hafter
  refine (hafter.trans (hc.append_right rest)).trans ?_
  rw [List.append_assoc]
  exact hbefore.symm.append_left more

/-- Joining the clusters of two different slots keeps all members. -/
theorem members_after_perm (best : ScoredPair m.units.size) (id : Int) (hx : best.first ∈ s.slots)
    (hy : best.second ∈ s.slots) (hxy : best.first ≠ best.second) :
    ((s.after best (s.merged m id best)).slots.flatMap fun z =>
        ((s.after best (s.merged m id best)).node z).members).Perm
      (s.slots.flatMap fun z => (s.node z).members) :=
  hs.flatMap_after_perm Cluster.members best hx hy hxy [] (Member.union_perm _ _)

/-- Joining the clusters of two slots, the smaller slot first, keeps the state sound; so does
joining the cluster of a slot with itself. -/
theorem after (best : ScoredPair m.units.size) (id : Int) (hx : best.first ∈ s.slots)
    (hy : best.second ∈ s.slots) (hle : best.first ≤ best.second) :
    (s.after best (s.merged m id best)).Sound m where
  ascending := hs.ascending.sublist List.erase_sublist
  least z hz := by
    obtain ⟨hzy, hz⟩ := hs.slots_nodup.mem_erase_iff.1 hz
    rw [node_after]
    by_cases hzx : z = best.first
    · subst hzx
      have hlt : (best.first.val : Int) < best.second.val :=
        Int.ofNat_lt.2 (Fin.lt_def.1 (lt_of_le_of_ne hle hzy))
      rw [if_pos rfl]
      exact Cluster.min?_indices_join (hs.least _ hx) (hs.least _ hy) hlt
    · rw [if_neg hzx]
      exact hs.least z hz
  members := by
    have hnodes := node_after s best (s.merged m id best)
    by_cases hxy : best.first = best.second
    · -- the joined cluster is in no slot that is still in use
      have hsame : ∀ z ∈ s.slots.erase best.second,
          ((s.after best (s.merged m id best)).node z).members = (s.node z).members := by
        intro z hz
        have hzy := (hs.slots_nodup.mem_erase_iff.1 hz).1
        rw [hnodes, if_neg (hxy ▸ hzy)]
      rw [slots_after, List.flatMap_congr hsame]
      exact (List.erase_sublist.flatMap _).subperm.trans hs.members
    · exact (hs.members_after_perm best id hx hy hxy).subperm.trans hs.members
  scores i hi j hj hij := by
    obtain ⟨hiy, hi⟩ := hs.slots_nodup.mem_erase_iff.1 hi
    obtain ⟨hjy, hj⟩ := hs.slots_nodup.mem_erase_iff.1 hj
    have hget := get_fuse s.scores best.first best.second hij
    rw [calls_after s best id hij]
    refine hget.trans ?_
    -- the row and the column of the first slot hold sums of two words, which are words of sums
    by_cases hix : i = best.first
    · subst hix
      rw [if_pos rfl, if_pos rfl, hs.scores _ hx j hj hij, hs.scores _ hy j hj (Ne.symm hjy),
        Int64.ofInt_add]
    · rw [if_neg hix, if_neg hix]
      by_cases hjx : j = best.first
      · subst hjx
        rw [if_pos rfl, if_pos rfl, hs.scores i hi _ hx hij, hs.scores i hi _ hy hiy,
          Int64.ofInt_add]
      · rw [if_neg hjx, if_neg hjx, hs.scores i hi j hj hij]

end Sound

/-! ### The pair that is joined -/

/-- Two slots in use are the first pair with the most calls between their clusters: pairs are
ordered by their first slot, and pairs with the same first slot by their second one. -/
structure Picks (m : CouplingMatrix) (s : Linkage m.units.size) (x y : Fin m.units.size) :
    Prop where
  /-- The first slot is in use. -/
  first_mem : x ∈ s.slots
  /-- The second slot is in use. -/
  second_mem : y ∈ s.slots
  /-- The first slot comes before the second one. -/
  lt : x < y
  /-- No other pair has more calls. -/
  greatest : ∀ x' ∈ s.slots, ∀ y' ∈ s.slots, x' < y' → s.calls m x' y' ≤ s.calls m x y
  /-- No earlier pair has as many calls. -/
  earliest : ∀ x' ∈ s.slots, ∀ y' ∈ s.slots, x' < y' → s.calls m x' y' = s.calls m x y →
    x < x' ∨ x = x' ∧ y ≤ y'

/-- No two clusters in use have more calls between them than those that are picked. -/
theorem Picks.calls_le {s : Linkage m.units.size} {x y a b : Fin m.units.size} (h : s.Picks m x y)
    (ha : a ∈ s.slots) (hb : b ∈ s.slots) (hab : a ≠ b) : s.calls m a b ≤ s.calls m x y := by
  rcases lt_or_gt_of_ne hab with hlt | hlt
  · exact h.greatest a ha b hb hlt
  · rw [s.calls_comm]
    exact h.greatest b hb a ha hlt

/-- Only one pair is the first one. -/
theorem Picks.unique {s : Linkage m.units.size} {x y x' y' : Fin m.units.size}
    (h : s.Picks m x y) (h' : s.Picks m x' y') : x = x' ∧ y = y' := by
  have heq : s.calls m x y = s.calls m x' y' :=
    le_antisymm (h'.greatest x h.first_mem y h.second_mem h.lt)
      (h.greatest x' h'.first_mem y' h'.second_mem h'.lt)
  have hle := h.earliest x' h'.first_mem y' h'.second_mem h'.lt heq.symm
  have hge := h'.earliest x h.first_mem y h.second_mem h.lt heq
  rcases hle with hlt | ⟨rfl, hle⟩
  · rcases hge with hgt | ⟨rfl, -⟩
    · exact absurd hgt (lt_asymm hlt)
    · exact absurd hlt (lt_irrefl _)
  · rcases hge with hgt | ⟨-, hge⟩
    · exact absurd hgt (lt_irrefl _)
    · exact ⟨rfl, le_antisymm hle hge⟩

/-- Of two slots there is only one pair. -/
theorem Picks.of_pair {s : Linkage m.units.size} {x y : Fin m.units.size} (hx : x ∈ s.slots)
    (hy : y ∈ s.slots) (hlt : x < y) (hslots : ∀ z ∈ s.slots, z = x ∨ z = y) :
    s.Picks m x y := by
  have hpair : ∀ x' ∈ s.slots, ∀ y' ∈ s.slots, x' < y' → x' = x ∧ y' = y := by
    intro x' hx' y' hy' hlt'
    rcases hslots x' hx' with rfl | rfl
    · rcases hslots y' hy' with rfl | rfl
      · exact absurd hlt' (lt_irrefl _)
      · exact ⟨rfl, rfl⟩
    · rcases hslots y' hy' with rfl | rfl
      · exact absurd hlt' (lt_asymm hlt)
      · exact absurd hlt' (lt_irrefl _)
  constructor
  case first_mem => exact hx
  case second_mem => exact hy
  case lt => exact hlt
  case greatest =>
    intro x' hx' y' hy' hlt'
    obtain ⟨rfl, rfl⟩ := hpair x' hx' y' hy' hlt'
    exact le_rfl
  case earliest =>
    intro x' hx' y' hy' hlt' _
    obtain ⟨rfl, rfl⟩ := hpair x' hx' y' hy' hlt'
    exact Or.inr ⟨rfl, le_rfl⟩

theorem two_le_length {α : Type} {l : List α} {a b : α} (ha : a ∈ l) (hb : b ∈ l) (hab : a ≠ b) :
    2 ≤ l.length := by
  by_contra hshort
  have hpos := List.length_pos_of_mem ha
  obtain ⟨c, rfl⟩ := List.length_eq_one_iff.1 (show l.length = 1 by omega)
  rw [List.mem_singleton] at ha hb
  exact hab (ha.trans hb.symm)

/-- Two slots with the word of the calls between their clusters. -/
def scored (m : CouplingMatrix) (s : Linkage m.units.size) (x y : Fin m.units.size) :
    ScoredPair m.units.size := ⟨x, y, Int64.ofInt (s.calls m x y)⟩

@[simp] theorem first_scored (s : Linkage m.units.size) (x y : Fin m.units.size) :
    (s.scored m x y).first = x := rfl

@[simp] theorem second_scored (s : Linkage m.units.size) (x y : Fin m.units.size) :
    (s.scored m x y).second = y := rfl

theorem length_slots_after (s : Linkage m.units.size) (x : Fin m.units.size)
    {y : Fin m.units.size} (hy : y ∈ s.slots) (c : Cluster) :
    (s.after (s.scored m x y) c).slots.length = s.slots.length - 1 :=
  List.length_erase_of_mem hy

/-- The clusters of two slots joined, at the coupling of the calls between them. -/
def joined (m : CouplingMatrix) (s : Linkage m.units.size) (id : Int)
    (x y : Fin m.units.size) : Cluster :=
  Cluster.join id (s.node x) (s.node y) (m.normalize (s.calls m x y))

namespace Sound

variable {s : Linkage m.units.size} (hs : s.Sound m) (hm : m.Bounded)

include hs hm

/-- The calls between two clusters in use fit into a word. -/
theorem toInt_calls {x y : Fin m.units.size} (hx : x ∈ s.slots) (hy : y ∈ s.slots) (hxy : x ≠ y) :
    (Int64.ofInt (s.calls m x y)).toInt = s.calls m x y :=
  hm.toInt_crossSum (hs.indices_subperm hx hy hxy)

/-- The score of a slot in use against a later one is the number of calls between their
clusters. -/
theorem toInt_score {x y : Fin m.units.size} (hpair : [x, y].Sublist s.slots) :
    (s.scores.get x y).toInt = s.calls m x y := by
  obtain ⟨hx, hy, hlt⟩ := (pair_sublist_iff_lt hs.ascending).1 hpair
  rw [hs.scores x hx y hy hlt.ne, hs.toInt_calls hm hx hy hlt.ne]

/-- A join takes the first pair with the most calls. -/
theorem exists_picks (hlen : 2 ≤ s.slots.length) :
    ∃ x y, s.Picks m x y ∧ bestPair s.scores s.slots = some (s.scored m x y) := by
  have hbefore : ∀ x' ∈ s.slots, ∀ y' ∈ s.slots, x' < y' → [x', y'].Sublist s.slots :=
    fun x' hx' y' hy' hlt => (pair_sublist_iff_lt hs.ascending).2 ⟨hx', hy', hlt⟩
  -- the calls between the first two slots are not negative, so a pair is found
  have hpair : [s.slots.get ⟨0, by omega⟩, s.slots.get ⟨1, by omega⟩].Sublist s.slots :=
    pair_sublist_iff_get.2 ⟨_, _, Fin.mk_lt_mk.2 Nat.zero_lt_one, rfl, rfl⟩
  have hpos := calls_nonneg hm s (s.slots.get ⟨0, by omega⟩) (s.slots.get ⟨1, by omega⟩)
  rw [← hs.toInt_score hm hpair] at hpos
  obtain ⟨x, y, hfirst, hbest⟩ :=
    exists_isFirstBest hs.ascending hpair (Int64.le_iff_toInt_le.2 hpos)
  obtain ⟨hx, hy, hlt⟩ := (pair_sublist_iff_lt hs.ascending).1 hfirst.pair
  have hvalue := hs.toInt_score hm hfirst.pair
  refine ⟨x, y, ⟨hx, hy, hlt, ?_, ?_⟩, ?_⟩
  · intro x' hx' y' hy' hlt'
    have hpair' := hbefore x' hx' y' hy' hlt'
    have hle := hfirst.greatest x' y' hpair'
    rwa [Int64.le_iff_toInt_le, hvalue, hs.toInt_score hm hpair'] at hle
  · intro x' hx' y' hy' hlt' heq
    have hpair' := hbefore x' hx' y' hy' hlt'
    have hnot : ¬(x' < x ∨ x' = x ∧ y' < y) := by
      intro hlex
      have hless := hfirst.first x' y' hpair' hlex
      rw [Int64.lt_iff_toInt_lt, hvalue, hs.toInt_score hm hpair'] at hless
      exact absurd heq (ne_of_lt hless)
    rcases lt_trichotomy x x' with hlt | rfl | hlt
    · exact Or.inl hlt
    · exact Or.inr ⟨rfl, not_lt.1 fun hlt => hnot (Or.inr ⟨rfl, hlt⟩)⟩
    · exact absurd (Or.inl hlt) hnot
  · rw [hbest, scored, ← hvalue, Int64.ofInt_toInt]

theorem merged_scored (id : Int) {x y : Fin m.units.size} (hp : s.Picks m x y) :
    s.merged m id (s.scored m x y) = s.joined m id x y := by
  have hcalls := hs.toInt_calls hm hp.first_mem hp.second_mem (ne_of_lt hp.lt)
  rw [merged_eq, joined, scored, hcalls]

/-- Joining the first pair with the most calls keeps the state sound. -/
theorem after_picks (id : Int) {x y : Fin m.units.size} (hp : s.Picks m x y) :
    (s.after (s.scored m x y) (s.joined m id x y)).Sound m := by
  have hsound := hs.after (s.scored m x y) id hp.first_mem hp.second_mem hp.lt.le
  rwa [hs.merged_scored hm id hp] at hsound

/-- A step joins the first pair with the most calls. -/
theorem exists_step (id : Int) (hlen : 2 ≤ s.slots.length) :
    ∃ x y, s.Picks m x y ∧ s.step m id =
      some (s.joined m id x y, s.after (s.scored m x y) (s.joined m id x y)) := by
  obtain ⟨x, y, hpicks, hbest⟩ := hs.exists_picks hm hlen
  refine ⟨x, y, hpicks, ?_⟩
  rw [step, hbest, Option.map_some, hs.merged_scored hm id hpicks]

/-- Two slots that are the first pair with the most calls are those that a step joins. -/
theorem step_of_picks (id : Int) {x y : Fin m.units.size} (hp : s.Picks m x y) :
    s.step m id = some (s.joined m id x y, s.after (s.scored m x y) (s.joined m id x y)) := by
  have hlen := two_le_length hp.first_mem hp.second_mem (ne_of_lt hp.lt)
  obtain ⟨x', y', hp', hstep⟩ := hs.exists_step hm id hlen
  obtain ⟨rfl, rfl⟩ := hp.unique hp'
  exact hstep

end Sound

/-! ### The forest of trees in use -/

/-- What holds between two joins in a bounded matrix, when the clusters `made` have been made. -/
structure Forest (m : CouplingMatrix) (made : List Cluster) (s : Linkage m.units.size) : Prop where
  /-- The state is sound. -/
  sound : s.Sound m
  /-- The clusters in use hold all units. -/
  covers : (s.slots.flatMap fun x => (s.node x).members).Perm m.members
  /-- The clusters in use are linked trees. -/
  linked : ∀ x ∈ s.slots, m.Linked (s.node x)
  /-- The nodes of these trees are the units and the clusters made. -/
  nodes : (s.slots.flatMap fun x => (s.node x).preorder).Perm
    ((Dendrogram.ofMatrix m).leaves ++ made)
  /-- The clusters made are numbered on from the units. -/
  made_ids : made.map Cluster.id =
    (List.range made.length).map fun k : Nat => (m.units.size : Int) + (k : Int)
  /-- Each cluster made has taken a slot out of use. -/
  count : s.slots.length + made.length = m.units.size
  /-- The newest cluster is in use. -/
  newest : ∀ c ∈ made.getLast?, ∃ x ∈ s.slots, s.node x = c

theorem mem_leaves {c : Cluster} :
    c ∈ (Dendrogram.ofMatrix m).leaves ↔ ∃ i, m.leafAt i = c := by
  simp [Dendrogram.ofMatrix]

namespace Forest

theorem start (m : CouplingMatrix) : Forest m [] (Linkage.start m) where
  sound := .start m
  covers := by
    refine .of_eq ?_
    simp [CouplingMatrix.leafAt, Cluster.single, Cluster.members,
      CouplingMatrix.members, List.map_eq_flatMap]
  linked x _ := by
    rw [node_start]
    exact .leaf x
  nodes := by
    refine .of_eq ?_
    simp [CouplingMatrix.leafAt, Cluster.single, Cluster.preorder,
      Dendrogram.ofMatrix, List.map_eq_flatMap]
  made_ids := rfl
  count := by simp [Linkage.start]
  newest c hc := by cases hc

variable {made : List Cluster} {s : Linkage m.units.size} (hf : Forest m made s)

include hf

/-- The next identifier is larger than those of all nodes. -/
theorem id_lt_of_mem {c : Cluster} (hc : c ∈ (Dendrogram.ofMatrix m).leaves ++ made) :
    c.id < (m.units.size : Int) + (made.length : Int) := by
  rcases List.mem_append.1 hc with hc | hc
  · obtain ⟨i, rfl⟩ := mem_leaves.1 hc
    have hid : (m.leafAt i).id = (i.val : Int) := rfl
    have hi := i.isLt
    omega
  · have hid := List.mem_map_of_mem (f := Cluster.id) hc
    rw [hf.made_ids] at hid
    obtain ⟨k, hk, hid⟩ := List.mem_map.1 hid
    have hk := List.mem_range.1 hk
    omega

theorem id_lt {x : Fin m.units.size} (hx : x ∈ s.slots) :
    (s.node x).id < (m.units.size : Int) + (made.length : Int) :=
  hf.id_lt_of_mem (hf.nodes.subset (List.mem_flatMap.2 ⟨x, hx, Cluster.self_mem_preorder _⟩))

/-- Joining the first pair with the most calls keeps the forest. -/
theorem after (hm : m.Bounded) {x y : Fin m.units.size} (hp : s.Picks m x y) {c : Cluster}
    (hc : c = s.joined m ((m.units.size : Int) + (made.length : Int)) x y) :
    Forest m (made ++ [c]) (s.after (s.scored m x y) c) := by
  have hs := hf.sound
  have hne : x ≠ y := ne_of_lt hp.lt
  have hnode : ∀ z, (s.after (s.scored m x y) c).node z = if z = x then c else s.node z :=
    node_after s (s.scored m x y) c
  have hslots : ∀ z ∈ (s.after (s.scored m x y) c).slots, z ≠ y ∧ z ∈ s.slots :=
    fun z hz => hs.slots_nodup.mem_erase_iff.1 hz
  have hx : x ∈ s.slots.erase y := (List.mem_erase_of_ne hne).2 hp.first_mem
  constructor
  case sound =>
    rw [hc]
    exact hs.after_picks hm _ hp
  case covers =>
    have hperm := hs.members_after_perm (s.scored m x y)
      ((m.units.size : Int) + (made.length : Int)) hp.first_mem hp.second_mem hne
    rw [hs.merged_scored hm _ hp, ← hc] at hperm
    exact hperm.trans hf.covers
  case linked =>
    intro z hz
    obtain ⟨hzy, hz⟩ := hslots z hz
    rw [hnode]
    split
    · rw [hc]
      refine .join (hf.linked x hp.first_mem) (hf.linked y hp.second_mem)
        (hf.id_lt hp.first_mem) (hf.id_lt hp.second_mem)
        (hs.disjoint hp.first_mem hp.second_mem hne) ?_
      rw [hs.least_eq hp.first_mem, hs.least_eq hp.second_mem]
      exact Int.ofNat_lt.2 (Fin.lt_def.1 hp.lt)
    · exact hf.linked z hz
  case nodes =>
    have hpreorder : c.preorder = c :: ((s.node x).preorder ++ (s.node y).preorder) := by
      rw [hc]
      rfl
    have hperm := hs.flatMap_after_perm Cluster.preorder (s.scored m x y) hp.first_mem
      hp.second_mem hne [c] (.of_eq hpreorder)
    rw [← List.append_assoc]
    exact (hperm.trans (hf.nodes.cons c)).trans (List.perm_append_singleton c _).symm
  case made_ids =>
    rw [List.map_append, hf.made_ids, List.length_append, List.length_singleton, List.range_succ,
      List.map_append, hc]
    rfl
  case count =>
    have hcount := hf.count
    have hpos := List.length_pos_of_mem hp.second_mem
    rw [length_slots_after s x hp.second_mem, List.length_append, List.length_singleton]
    omega
  case newest =>
    intro d hd
    rw [List.getLast?_append_of_ne_nil _ (List.cons_ne_nil c []), Option.mem_def,
      List.getLast?_singleton, Option.some.injEq] at hd
    exact ⟨x, hx, by rw [hnode, if_pos rfl, hd]⟩

/-- While two clusters are in use, a step joins the first pair with the most calls and keeps the
forest. -/
theorem step (hm : m.Bounded) (hlen : 2 ≤ s.slots.length) :
    ∃ x y c s', s.Picks m x y ∧
      c = s.joined m ((m.units.size : Int) + (made.length : Int)) x y ∧
      s' = s.after (s.scored m x y) c ∧
      s.step m ((m.units.size : Int) + (made.length : Int)) = some (c, s') ∧
      Forest m (made ++ [c]) s' := by
  obtain ⟨x, y, hp, hstep⟩ :=
    hf.sound.exists_step hm ((m.units.size : Int) + (made.length : Int)) hlen
  exact ⟨x, y, _, _, hp, rfl, rfl, hstep, hf.after hm hp rfl⟩

/-- A number of joins less than the number of clusters in use can be made, and keeps the forest. -/
theorem exists_steps (hm : m.Bounded) {steps : Nat} (hsteps : steps < s.slots.length) :
    ∃ new s', Steps m ((m.units.size : Int) + (made.length : Int)) s new s' ∧
      new.length = steps ∧ Forest m (made ++ new) s' := by
  induction steps generalizing made s with
  | zero => exact ⟨[], s, .nil _ s, rfl, by rwa [List.append_nil]⟩
  | succ steps ih =>
      -- the joins are taken off the front, while the clusters made grow at the end
      obtain ⟨x, y, c, s', hp, -, hs', hstep, hf'⟩ := hf.step hm (by omega)
      have hslots : steps < s'.slots.length := by
        rw [hs', length_slots_after s x hp.second_mem]
        omega
      obtain ⟨new, s'', hnew, hlen, hf''⟩ := ih hf' hslots
      have hid : (m.units.size : Int) + ((made ++ [c]).length : Int) =
          (m.units.size : Int) + (made.length : Int) + 1 := by
        rw [List.length_append, List.length_singleton]
        omega
      rw [hid] at hnew
      refine ⟨c :: new, s'', .cons hstep hnew, by rw [List.length_cons, hlen], ?_⟩
      rwa [List.append_cons]

end Forest

end Linkage

/-- Joins from the first state, one less than there are units, are the merges of the dendrogram. -/
theorem Dendrogram.merges_eq_of_steps {m : CouplingMatrix} {new : List Cluster}
    {s : Linkage m.units.size} (h : Linkage.Steps m m.units.size (Linkage.start m) new s)
    (hlen : new.length = m.units.size - 1) : (Dendrogram.ofMatrix m).merges = new := by
  have hrun := h.run_eq 0
  rw [Nat.add_zero, hlen, Linkage.run, List.append_nil] at hrun
  exact hrun

/-- The joins that make the dendrogram of a bounded matrix: one less than there are units. -/
theorem Dendrogram.exists_steps {m : CouplingMatrix} (hm : m.Bounded) (hn : 0 < m.units.size) :
    ∃ s, Linkage.Steps m m.units.size (Linkage.start m) (Dendrogram.ofMatrix m).merges s ∧
      Linkage.Forest m (Dendrogram.ofMatrix m).merges s ∧
      (Dendrogram.ofMatrix m).merges.length = m.units.size - 1 := by
  have hslots : m.units.size - 1 < (Linkage.start m).slots.length := by
    rw [Linkage.start, List.length_finRange]
    omega
  obtain ⟨new, s, hsteps, hlen, hf⟩ := (Linkage.Forest.start m).exists_steps hm hslots
  rw [List.length_nil, Int.natCast_zero, Int.add_zero] at hsteps
  rw [Dendrogram.merges_eq_of_steps hsteps hlen]
  exact ⟨s, hsteps, hf, hlen⟩

/-- The dendrogram of a bounded matrix ends with one tree in use, after one merge less than there
are units. -/
theorem Dendrogram.exists_forest {m : CouplingMatrix} (hm : m.Bounded) (hn : 0 < m.units.size) :
    ∃ s, Linkage.Forest m (Dendrogram.ofMatrix m).merges s ∧
      (Dendrogram.ofMatrix m).merges.length = m.units.size - 1 := by
  obtain ⟨s, -, hf, hlen⟩ := Dendrogram.exists_steps hm hn
  exact ⟨s, hf, hlen⟩

end Cohesion
