/-
A linkage inside a larger one.

A coupling matrix extends another one when it begins with the same units, has the same number of
calls between them, up to a common factor, and no calls of its other units.  Then the larger matrix
joins the old units exactly as the smaller one does, before it looks at any other unit: scores are
compared with each other only, so the factor does not matter, and a new unit has no calls with any
cluster and stands behind all old ones, so it wins no tie against them.

Main definitions:
* `Cluster.renumber`, `Cluster.shiftId` — a tree with other identifiers;
* `CouplingMatrix.Extends` — a matrix extends another one by a factor;
* `Linkage.Embeds` — a state of the larger matrix continues a state of the smaller one.

Main results:
* `CouplingMatrix.extends_of_build` — more units, and calls with a factor;
* `Linkage.Embeds.picks` — both matrices join the same pair;
* `Linkage.Embeds.steps` — **the larger matrix follows the joins of the smaller one**;
* `Dendrogram.exists_embedding` — up to identifiers it begins with all merges of the smaller one;
* `CouplingMatrix.Extends.chosen_renumber` — in each of them the same clusters are chosen.
-/
import Cohesion.Proofs.Clustering.Cut
import Cohesion.Proofs.Clustering.Accounting
import Cohesion.Proofs.Coupling.Acceptance
import Cohesion.Proofs.Number.Quotient

set_option autoImplicit false

namespace Cohesion

/-! ### Other identifiers -/

namespace Cluster

/-- The tree with other identifiers. -/
def renumber (f : Int → Int) : Cluster → Cluster
  | leaf id members => leaf (f id) members
  | merge id members left right coupling =>
    merge (f id) members (left.renumber f) (right.renumber f) coupling

/-- Where `n` units become `n'`, the identifiers of the units stay and the others move on. -/
def shiftId (n n' : Nat) (id : Int) : Int := if id < n then id else id + (n' - n)

variable (f : Int → Int)

@[simp] theorem members_renumber (c : Cluster) : (c.renumber f).members = c.members := by
  cases c <;> rfl

@[simp] theorem indices_renumber (c : Cluster) : (c.renumber f).indices = c.indices := by
  rw [indices, members_renumber, indices]

theorem renumber_single (i : Int) (u : CodeUnit) (p : Int) :
    (single i u p).renumber f = single (f i) u p := rfl

theorem renumber_join (i : Int) (l r : Cluster) (k : Binary64) :
    (join i l r k).renumber f = join (f i) (l.renumber f) (r.renumber f) k := by
  simp [join, renumber]

theorem renumber_self (c : Cluster) : c.renumber (fun i => i) = c := by
  induction c with
  | leaf i ms => rfl
  | merge i ms l r k ihl ihr => rw [renumber, ihl, ihr]

theorem shiftId_of_lt {n : Nat} (n' : Nat) {i : Int} (h : i < n) : shiftId n n' i = i := if_pos h

theorem shiftId_of_le {n : Nat} (n' : Nat) {i : Int} (h : (n : Int) ≤ i) :
    shiftId n n' i = i + (n' - n) := if_neg (not_lt.2 h)

theorem shiftId_self (n : Nat) : shiftId n n = fun i => i := by
  funext i
  simp [shiftId]

end Cluster

/-! ### Extensions of a matrix -/

namespace CouplingMatrix

/-- A matrix begins with the units of another one, has their calls with a factor, and no others. -/
structure Extends (m m' : CouplingMatrix) (k : Int) : Prop where
  /-- There may be more units. -/
  size_le : m.units.size ≤ m'.units.size
  /-- The first units are the same. -/
  unitAt_castLE : ∀ i, m'.unitAt (Fin.castLE size_le i) = m.unitAt i
  /-- The factor is positive. -/
  pos : 0 < k
  /-- Numbers of calls are multiplied; the other units have no calls, as they have none outside the
  smaller matrix. -/
  weight : ∀ i j, m'.weight i j = k * m.weight i j
  /-- The number of all calls is multiplied. -/
  total : m'.total.toInt = k * m.total.toInt

/-- What is not a position of the matrix has no calls. -/
theorem weight_of_outside (m : CouplingMatrix) {i : Int} (hi : i < 0 ∨ (m.units.size : Int) ≤ i)
    (j : Int) : m.weight i j = 0 := by
  have hout : ¬(0 ≤ i ∧ i.toNat < m.units.size ∧ 0 ≤ j ∧ j.toNat < m.units.size) := by
    omega
  rw [weight, symmetricAt, dif_neg hout]
  rfl

theorem position_cases (m : CouplingMatrix) (i : Int) :
    (∃ i' : Fin m.units.size, i = i'.val) ∨ i < 0 ∨ (m.units.size : Int) ≤ i := by
  rcases lt_or_ge i 0 with hneg | hpos
  · exact Or.inr (Or.inl hneg)
  · rcases lt_or_ge i m.units.size with hlt | hge
    · exact Or.inl ⟨⟨i.toNat, by omega⟩, (Int.toNat_of_nonneg hpos).symm⟩
    · exact Or.inr (Or.inr hge)

theorem total_eq_zero_iff (m : CouplingMatrix) : (m.total == 0) = true ↔ m.total.toInt = 0 := by
  rw [beq_iff_eq, ← Int64.toInt_inj]
  rfl

namespace Extends

variable {m m' : CouplingMatrix} {k : Int} (h : m.Extends m' k)

include h

theorem leafAt_castLE (i : Fin m.units.size) : m'.leafAt (Fin.castLE h.size_le i) = m.leafAt i := by
  rw [leafAt, leafAt, h.unitAt_castLE]
  rfl

theorem normalize_mul (calls : Int) : m'.normalize (k * calls) = m.normalize calls := by
  have hpos := h.pos
  have hzero : (m'.total == 0) = (m.total == 0) := by
    rw [Bool.eq_iff_iff, total_eq_zero_iff, total_eq_zero_iff, h.total, mul_eq_zero]
    omega
  rw [normalize, normalize, hzero, h.total, Binary64.ratio_mul_left hpos]

theorem crossSum_weight (xs ys : List Int) :
    crossSum m'.weight xs ys = k * crossSum m.weight xs ys := by
  rw [← crossSum_mul_left]
  exact congrArg (crossSum · xs ys) (funext fun i => funext fun j => h.weight i j)

theorem pairSum_weight (xs : List Int) : pairSum m'.weight xs = k * pairSum m.weight xs := by
  rw [← pairSum_mul_left]
  exact congrArg (pairSum · xs) (funext fun i => funext fun j => h.weight i j)

/-- The other units have no calls. -/
theorem weight_eq_zero {j : Int} (hj : (m.units.size : Int) ≤ j) (i : Int) : m'.weight i j = 0 := by
  rw [m'.weight_comm, h.weight, m.weight_of_outside (Or.inr hj), mul_zero]

theorem positions_subset : m.positions ⊆ m'.positions := by
  intro a ha
  rw [positions_eq] at ha
  obtain ⟨i, -, rfl⟩ := List.mem_map.1 ha
  exact m'.mem_positions (Fin.castLE h.size_le i)

variable (hm : m.Bounded) (hm' : m'.Bounded)

include hm hm'

/-- A linked tree has the same average internal coupling in both matrices. -/
theorem averageInternalCoupling_renumber {c : Cluster} (hc : m.Linked c) (f : Int → Int) :
    m'.averageInternalCoupling (c.renumber f) = m.averageInternalCoupling c := by
  have hsize : (c.renumber f).size = c.size := by simp [Cluster.size]
  have hsub : c.indices.Subperm m'.positions :=
    List.subperm_of_subset (hc.sorted.imp ne_of_lt)
      (List.Subset.trans hc.indices_subperm.subset h.positions_subset)
  have hcalls : m'.normalize (m'.internalCalls (c.renumber f).indices).toInt =
      m.normalize (m.internalCalls c.indices).toInt := by
    rw [Cluster.indices_renumber, hm'.toInt_internalCalls hsub, h.pairSum_weight, h.normalize_mul,
      hm.toInt_internalCalls hc.indices_subperm]
  simp only [averageInternalCoupling, hsize, hcalls]

/-- In a linked tree the same clusters are chosen in both matrices. -/
theorem chosen_renumber {c : Cluster} (hc : m.Linked c) (f : Int → Int) (t : Binary64) :
    (c.renumber f).chosen m' t = (c.chosen m t).map fun p => (p.1.renumber f, p.2) := by
  induction hc with
  | leaf i => rfl
  | @join i l r hl hr hil hir hdisj hleast ihl ihr =>
      have havg := h.averageInternalCoupling_renumber hm hm' (.join hl hr hil hir hdisj hleast) f
      rw [Cluster.join, Cluster.renumber] at havg
      rw [Cluster.join, Cluster.renumber, Cluster.chosen_merge, Cluster.chosen_merge, havg, ihl,
        ihr]
      split
      · rfl
      · rw [List.map_append]

end Extends

/-! ### Extensions that are accepted -/

section

variable {units more : List CodeUnit} {calls calls' : List Call} {m m' : CouplingMatrix} {k : Int}
  (h : build units calls = .ok m) (h' : build (units ++ more) calls' = .ok m')

include h h'

/-- A unit that was added is not one of the others, so it has no calls. -/
theorem tally_of_added {i : Fin m'.units.size} (hi : m.units.size ≤ i.val) (a : CodeUnit) :
    Call.tally calls (m'.unitAt i) a = 0 ∧ Call.tally calls a (m'.unitAt i) = 0 := by
  refine tally_eq_zero_of_build h (fun v hv => ?_) a
  have hget := getElem?_units_of_build h' i
  rw [size_of_build h] at hi
  rw [List.getElem?_append_right hi] at hget
  exact (List.pairwise_append.1 (pairwise_of_build h')).2.2 v hv _ (List.mem_of_getElem? hget)

/-- A matrix of calls with a factor, over the same units and more, extends the matrix of the
calls. -/
theorem extends_of_build (hk : 0 < k)
    (htally : ∀ a b, Call.tally calls' a b = k * Call.tally calls a b)
    (htotal : sumOf (calls'.map (·.count)) = k * sumOf (calls.map (·.count)))
    (hsum : sumOf (calls'.map (·.count)) < 2 ^ 63) : m.Extends m' k := by
  have hpos := sum_nonneg_of_build h
  have hsum' : sumOf (calls.map (·.count)) < 2 ^ 63 :=
    lt_of_le_of_lt (le_mul_of_one_le_left hpos hk) (htotal ▸ hsum)
  have hsize : m.units.size ≤ m'.units.size := by
    rw [size_of_build h, size_of_build h', List.length_append]
    exact Nat.le_add_right _ _
  have hunitAt : ∀ i, m'.unitAt (Fin.castLE hsize i) = m.unitAt i := by
    intro i
    have hget := getElem?_units_of_build h' (Fin.castLE hsize i)
    have hi : i.val < units.length := by
      rw [← size_of_build h]
      exact i.isLt
    rw [Fin.val_castLE, List.getElem?_append_left hi, getElem?_units_of_build h i] at hget
    exact (Option.some.inj hget).symm
  have hother : ∀ i j, i < 0 ∨ (m.units.size : Int) ≤ i → m'.weight i j = 0 := by
    intro i j hi
    rcases m'.position_cases i with ⟨i, rfl⟩ | hi'
    · rcases m'.position_cases j with ⟨j, rfl⟩ | hj
      · obtain ⟨hfrom, hto⟩ := tally_of_added h h' (i := i) (by omega) (m'.unitAt j)
        rw [weight_of_build h' hsum, htally, htally, hfrom, hto, mul_zero, add_zero]
      · rw [m'.weight_comm, m'.weight_of_outside hj]
    · exact m'.weight_of_outside hi' j
  constructor
  case size_le => exact hsize
  case unitAt_castLE => exact hunitAt
  case pos => exact hk
  case weight =>
    intro i j
    rcases m.position_cases i with ⟨i, rfl⟩ | hi
    · rcases m.position_cases j with ⟨j, rfl⟩ | hj
      · have hweight := weight_of_build h' hsum (Fin.castLE hsize i) (Fin.castLE hsize j)
        rw [hunitAt, hunitAt, htally, htally, ← mul_add] at hweight
        rw [weight_of_build h hsum']
        exact hweight
      · rw [m'.weight_comm, hother j _ hj, m.weight_comm, m.weight_of_outside hj, mul_zero]
    · rw [hother i j hi, m.weight_of_outside hi, mul_zero]
  case total =>
    rw [toInt_total_of_build h' hsum, toInt_total_of_build h hsum', htotal]

end

end CouplingMatrix

/-! ### States -/

namespace Linkage

variable {m m' : CouplingMatrix} {k : Int}

/-- A state of the larger matrix continues a state of the smaller one: it has the same clusters in
the same slots, up to identifiers, and in the other slots each of the other units alone. -/
structure Embeds (h : m.Extends m' k) (s : Linkage m.units.size) (s' : Linkage m'.units.size) :
    Prop where
  /-- The slots in use are those of the smaller state and all others. -/
  mem_slots : ∀ z, z ∈ s'.slots ↔
    (∃ x ∈ s.slots, Fin.castLE h.size_le x = z) ∨ m.units.size ≤ z.val
  /-- The clusters of the smaller state are in their slots. -/
  node : ∀ x ∈ s.slots, s'.node (Fin.castLE h.size_le x) =
    (s.node x).renumber (Cluster.shiftId m.units.size m'.units.size)
  /-- The other units are alone. -/
  leaf : ∀ z : Fin m'.units.size, m.units.size ≤ z.val → s'.node z = m'.leafAt z

namespace Embeds

theorem start (h : m.Extends m' k) : Embeds h (Linkage.start m) (Linkage.start m') where
  mem_slots z := by
    rw [slots_start, slots_start]
    constructor
    · intro _
      rcases Nat.lt_or_ge z.val m.units.size with hz | hz
      · exact Or.inl ⟨⟨z.val, hz⟩, List.mem_finRange _, rfl⟩
      · exact Or.inr hz
    · intro _
      exact List.mem_finRange z
  node x _ := by
    have hx : ((x.val : Nat) : Int) < m.units.size := Int.ofNat_lt.2 x.isLt
    rw [node_start, node_start, h.leafAt_castLE, CouplingMatrix.leafAt, Cluster.renumber_single,
      Cluster.shiftId_of_lt _ hx]
  leaf z _ := node_start m' z

section

variable {h : m.Extends m' k} {s : Linkage m.units.size} {s' : Linkage m'.units.size}
  (he : Embeds h s s')

include he

theorem castLE_mem {x : Fin m.units.size} (hx : x ∈ s.slots) :
    Fin.castLE h.size_le x ∈ s'.slots :=
  (he.mem_slots _).2 (Or.inl ⟨x, hx, rfl⟩)

theorem calls_castLE {x y : Fin m.units.size} (hx : x ∈ s.slots) (hy : y ∈ s.slots) :
    s'.calls m' (Fin.castLE h.size_le x) (Fin.castLE h.size_le y) = k * s.calls m x y := by
  rw [calls, he.node x hx, he.node y hy, Cluster.indices_renumber, Cluster.indices_renumber,
    h.crossSum_weight]
  rfl

/-- No cluster has calls with another unit. -/
theorem calls_eq_zero (x : Fin m'.units.size) {z : Fin m'.units.size}
    (hz : m.units.size ≤ z.val) : s'.calls m' x z = 0 := by
  have hrow : ∀ i, m'.weight i z.val = 0 := h.weight_eq_zero (Int.ofNat_le.2 hz)
  have hindices : (s'.node z).indices = [(z.val : Int)] := by
    rw [he.leaf z hz]
    rfl
  rw [calls, hindices, crossSum_cons_right]
  simp [hrow, crossSum]

/-- The first pair with the most calls is the same in both matrices. -/
theorem picks (hm : m.Bounded) {x y : Fin m.units.size} (hp : s.Picks m x y) :
    s'.Picks m' (Fin.castLE h.size_le x) (Fin.castLE h.size_le y) := by
  have hk := h.pos
  have hnonneg := calls_nonneg hm s x y
  have hpair := he.calls_castLE hp.first_mem hp.second_mem
  constructor
  case first_mem => exact he.castLE_mem hp.first_mem
  case second_mem => exact he.castLE_mem hp.second_mem
  case lt => exact hp.lt
  case greatest =>
    intro x' hx' y' hy' hlt
    rw [hpair]
    rcases (he.mem_slots y').1 hy' with ⟨b, hb, rfl⟩ | hout
    · rcases (he.mem_slots x').1 hx' with ⟨a, ha, rfl⟩ | hout
      · rw [he.calls_castLE ha hb]
        exact mul_le_mul_of_nonneg_left (hp.greatest a ha b hb hlt) hk.le
      · -- the larger slot of a pair cannot be an old one alone
        exact absurd (lt_of_lt_of_le b.isLt hout) (not_lt.2 (Fin.lt_def.1 hlt).le)
    · rw [he.calls_eq_zero x' hout]
      exact mul_nonneg hk.le hnonneg
  case earliest =>
    intro x' hx' y' hy' hlt heq
    rw [hpair] at heq
    rcases (he.mem_slots x').1 hx' with ⟨a, ha, rfl⟩ | hout
    · rcases (he.mem_slots y').1 hy' with ⟨b, hb, rfl⟩ | hout
      · rw [he.calls_castLE ha hb] at heq
        rcases hp.earliest a ha b hb hlt (mul_left_cancel₀ hk.ne' heq) with hfirst | ⟨rfl, hle⟩
        · exact Or.inl hfirst
        · exact Or.inr ⟨rfl, hle⟩
      · -- the most calls are none, so no old pair before this one was passed over
        rw [he.calls_eq_zero _ hout] at heq
        have hzero : s.calls m x y = 0 := (mul_eq_zero.1 heq.symm).resolve_left hk.ne'
        rcases lt_trichotomy x a with hxa | rfl | hax
        · exact Or.inl hxa
        · exact Or.inr ⟨rfl, Fin.le_def.2 (le_trans y.isLt.le hout)⟩
        · have hay := hp.greatest a ha y hp.second_mem (hax.trans hp.lt)
          have hay' : s.calls m a y = s.calls m x y :=
            le_antisymm hay (hzero ▸ calls_nonneg hm s a y)
          rcases hp.earliest a ha y hp.second_mem (hax.trans hp.lt) hay' with hxa | ⟨rfl, -⟩
          · exact absurd hxa (lt_asymm hax)
          · exact absurd hax (lt_irrefl _)
    · exact Or.inl (Fin.lt_def.2 (lt_of_lt_of_le x.isLt hout))

theorem joined_castLE {x y : Fin m.units.size} (hx : x ∈ s.slots) (hy : y ∈ s.slots) (id : Int) :
    s'.joined m' (Cluster.shiftId m.units.size m'.units.size id) (Fin.castLE h.size_le x)
        (Fin.castLE h.size_le y) =
      (s.joined m id x y).renumber (Cluster.shiftId m.units.size m'.units.size) := by
  rw [joined, joined, Cluster.renumber_join, he.node x hx, he.node y hy, he.calls_castLE hx hy,
    h.normalize_mul]

/-- Joining the same pair keeps the states together. -/
theorem after (hs : s.Sound m) (hs' : s'.Sound m') (x y : Fin m.units.size) (c : Cluster) :
    Embeds h (s.after (s.scored m x y) c)
      (s'.after (s'.scored m' (Fin.castLE h.size_le x) (Fin.castLE h.size_le y))
        (c.renumber (Cluster.shiftId m.units.size m'.units.size))) := by
  have hinj : ∀ {a b : Fin m.units.size}, Fin.castLE h.size_le a = Fin.castLE h.size_le b ↔
      a = b := fun {a b} => (Fin.castLE_injective h.size_le).eq_iff
  constructor
  case mem_slots =>
    intro z
    rw [slots_after, slots_after, second_scored, second_scored, hs'.slots_nodup.mem_erase_iff,
      he.mem_slots]
    simp only [hs.slots_nodup.mem_erase_iff]
    constructor
    · rintro ⟨hzy, ⟨a, ha, rfl⟩ | hout⟩
      · exact Or.inl ⟨a, ⟨fun hay => hzy (hinj.2 hay), ha⟩, rfl⟩
      · exact Or.inr hout
    · rintro (⟨a, ⟨hay, ha⟩, rfl⟩ | hout)
      · exact ⟨fun hzy => hay (hinj.1 hzy), Or.inl ⟨a, ha, rfl⟩⟩
      · refine ⟨?_, Or.inr hout⟩
        rintro rfl
        exact absurd y.isLt (not_lt.2 hout)
  case node =>
    intro z hz
    rw [node_after, node_after, first_scored, first_scored]
    by_cases hzx : z = x
    · rw [if_pos (hinj.2 hzx), if_pos hzx]
    · rw [if_neg (mt hinj.1 hzx), if_neg hzx]
      exact he.node z (List.mem_of_mem_erase hz)
  case leaf =>
    intro z hz
    have hne : z ≠ Fin.castLE h.size_le x := by
      rintro rfl
      exact absurd x.isLt (not_lt.2 hz)
    rw [node_after, first_scored, if_neg hne]
    exact he.leaf z hz

end

/-- **The larger matrix follows the joins of the smaller one**, as long as two of its clusters are
in use. -/
theorem steps {h : m.Extends m' k} (hm : m.Bounded) (hm' : m'.Bounded) {id : Int}
    {s t : Linkage m.units.size} {new : List Cluster} (hsteps : Steps m id s new t)
    (hs : s.Sound m) (hlen : new.length < s.slots.length) (hid : (m.units.size : Int) ≤ id)
    {s' : Linkage m'.units.size} (hs' : s'.Sound m') (he : Embeds h s s') :
    ∃ t', Steps m' (Cluster.shiftId m.units.size m'.units.size id) s'
        (new.map (Cluster.renumber (Cluster.shiftId m.units.size m'.units.size))) t' ∧
      t'.Sound m' ∧ Embeds h t t' := by
  induction hsteps generalizing s' with
  | nil id s => exact ⟨s', .nil _ s', hs', he⟩
  | @cons id s s₁ t c cs hfirst _ ih =>
      rw [List.length_cons] at hlen
      obtain ⟨x, y, hp, hstep⟩ := hs.exists_step hm id (by omega)
      rw [hfirst] at hstep
      cases hstep
      have hp' := he.picks hm hp
      have hstep' := hs'.step_of_picks hm' (Cluster.shiftId m.units.size m'.units.size id) hp'
      have hs₁' := hs'.after_picks hm' (Cluster.shiftId m.units.size m'.units.size id) hp'
      rw [he.joined_castLE hp.first_mem hp.second_mem] at hstep' hs₁'
      have hslots := length_slots_after s x hp.second_mem (s.joined m id x y)
      obtain ⟨t', hsteps', ht', het⟩ := ih (hs.after_picks hm id hp) (by omega) (by omega)
        hs₁' (he.after hs hs' x y _)
      have hnext : Cluster.shiftId m.units.size m'.units.size (id + 1) =
          Cluster.shiftId m.units.size m'.units.size id + 1 := by
        rw [Cluster.shiftId_of_le _ hid, Cluster.shiftId_of_le _ (by omega)]
        omega
      rw [hnext] at hsteps'
      exact ⟨t', .cons hstep' hsteps', ht', het⟩

end Embeds

end Linkage

/-- Up to identifiers the larger matrix makes all clusters of the smaller one first. -/
theorem Dendrogram.exists_embedding {m m' : CouplingMatrix} {k : Int} (h : m.Extends m' k)
    (hm : m.Bounded) (hm' : m'.Bounded) (hn : 0 < m.units.size) :
    ∃ s s', Linkage.Forest m (ofMatrix m).merges s ∧
      (ofMatrix m).merges.length = m.units.size - 1 ∧
      Linkage.Steps m' m'.units.size (Linkage.start m')
        ((ofMatrix m).merges.map (Cluster.renumber (Cluster.shiftId m.units.size m'.units.size)))
        s' ∧
      s'.Sound m' ∧ Linkage.Embeds h s s' := by
  obtain ⟨s, hsteps, hf, hlen⟩ := exists_steps hm hn
  have hslots : (Linkage.start m).slots.length = m.units.size := List.length_finRange
  obtain ⟨s', hsteps', hs', he⟩ := Linkage.Embeds.steps hm hm' hsteps (.start m) (by omega) le_rfl
    (.start m') (.start h)
  have hid : Cluster.shiftId m.units.size m'.units.size m.units.size = m'.units.size := by
    rw [Cluster.shiftId_of_le _ le_rfl]
    omega
  rw [hid] at hsteps'
  exact ⟨s, s', hf, hlen, hsteps', hs', he⟩

end Cohesion
