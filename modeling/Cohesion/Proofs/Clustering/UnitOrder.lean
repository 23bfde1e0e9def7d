/-
The order of the units.

A permutation of the units changes positions, slots and identifiers, and which child of a merge is
the left one.  It can change what is joined only where two pairs of clusters have the most calls:
then the first pair is taken, in the order of the slots.  Without such a tie the two linkages go
side by side, each cluster in use having the same units, and a tree of the same shape, as one on
the other side.

Main definitions:
* `Linkage.Unrivalled` — exactly one pair of clusters in use has the most calls;
* `Linkage.TieFree`, `CouplingMatrix.TieFree` — this holds before each join;
* `Cluster.Alike` — trees that differ in identifiers, positions and the order of children only;
* `Linkage.Follows` — each cluster in use is alike to one that is in use on the other side;
* `Module.outline` — the units of a module and its cohesion.

Main results:
* `CouplingMatrix.outlines_alike` — in alike trees alike clusters are chosen;
* `Linkage.exists_step_alike` — without a tie both sides join the same clusters;
* `Linkage.exists_steps_alike` — **and so does the whole run**;
* `Dendrogram.alike_of_perm` — without ties the order of the units does not matter.
-/
import Cohesion.Proofs.Clustering.Cut
import Cohesion.Proofs.Coupling.Acceptance
import Cohesion.Proofs.Clustering.Traffic

set_option autoImplicit false

namespace Cohesion

/-! ### Ties -/

namespace Linkage

/-- No pair of clusters in use has more calls than those in two slots. -/
structure Greatest (m : CouplingMatrix) (s : Linkage m.units.size)
    (p : Fin m.units.size × Fin m.units.size) : Prop where
  /-- The first slot is in use. -/
  first_mem : p.1 ∈ s.slots
  /-- The second slot is in use. -/
  second_mem : p.2 ∈ s.slots
  /-- The first slot comes before the second one. -/
  lt : p.1 < p.2
  /-- No other pair has more calls. -/
  le : ∀ x ∈ s.slots, ∀ y ∈ s.slots, x < y → s.calls m x y ≤ s.calls m p.1 p.2

instance (m : CouplingMatrix) (s : Linkage m.units.size) (p : Fin m.units.size × Fin m.units.size) :
    Decidable (s.Greatest m p) :=
  decidable_of_iff (p.1 ∈ s.slots ∧ p.2 ∈ s.slots ∧ p.1 < p.2 ∧
      ∀ x ∈ s.slots, ∀ y ∈ s.slots, x < y → s.calls m x y ≤ s.calls m p.1 p.2)
    ⟨fun ⟨hx, hy, hlt, hle⟩ => ⟨hx, hy, hlt, hle⟩, fun ⟨hx, hy, hlt, hle⟩ => ⟨hx, hy, hlt, hle⟩⟩

/-- Exactly one pair of clusters in use has the most calls. -/
def Unrivalled (m : CouplingMatrix) (s : Linkage m.units.size) : Prop := ∃! p, s.Greatest m p

instance (m : CouplingMatrix) (s : Linkage m.units.size) : Decidable (s.Unrivalled m) :=
  inferInstanceAs (Decidable (∃ p, s.Greatest m p ∧ ∀ q, s.Greatest m q → q = p))

/-- Before each of a number of joins exactly one pair of clusters in use has the most calls. -/
def TieFree (m : CouplingMatrix) (id : Int) : Nat → Linkage m.units.size → Prop
  | 0, _ => True
  | steps + 1, s => s.Unrivalled m ∧
    match s.step m id with
    | none => True
    | some (_, next) => TieFree m (id + 1) steps next

instance instDecidableTieFree (m : CouplingMatrix) : (id : Int) → (steps : Nat) →
    (s : Linkage m.units.size) → Decidable (TieFree m id steps s)
  | _, 0, _ => inferInstanceAs (Decidable True)
  | id, steps + 1, s =>
    have : Decidable (match s.step m id with
        | none => True
        | some (_, next) => TieFree m (id + 1) steps next) :=
      match s.step m id with
      | none => inferInstanceAs (Decidable True)
      | some (_, next) => instDecidableTieFree m (id + 1) steps next
    inferInstanceAs (Decidable (s.Unrivalled m ∧ _))

end Linkage

/-- Before each join of the dendrogram exactly one pair of clusters has the most calls. -/
def CouplingMatrix.TieFree (m : CouplingMatrix) : Prop :=
  Linkage.TieFree m m.units.size (m.units.size - 1) (Linkage.start m)

instance (m : CouplingMatrix) : Decidable m.TieFree :=
  inferInstanceAs (Decidable (Linkage.TieFree m m.units.size (m.units.size - 1) (Linkage.start m)))

/-! ### Alike trees -/

namespace Cluster

/-- Two trees have the same units, and are joined from alike trees at the same coupling, where the
two children may be exchanged. -/
inductive Alike : Cluster → Cluster → Prop
  | leaf {i i' : Int} {ms ms' : List Member}
      (units : ((leaf i ms).units).Perm (leaf i' ms').units) : Alike (leaf i ms) (leaf i' ms')
  | merge {i i' : Int} {ms ms' : List Member} {l l' r r' : Cluster} {k : Binary64}
      (units : ((merge i ms l r k).units).Perm (merge i' ms' l' r' k).units)
      (left : Alike l l') (right : Alike r r') : Alike (merge i ms l r k) (merge i' ms' l' r' k)
  | mirror {i i' : Int} {ms ms' : List Member} {l l' r r' : Cluster} {k : Binary64}
      (units : ((merge i ms l r k).units).Perm (merge i' ms' l' r' k).units)
      (left : Alike l r') (right : Alike r l') : Alike (merge i ms l r k) (merge i' ms' l' r' k)

theorem Alike.units_perm {c c' : Cluster} (h : c.Alike c') : c.units.Perm c'.units := by
  cases h with
  | leaf units => exact units
  | merge units _ _ => exact units
  | mirror units _ _ => exact units

theorem Alike.symm {c c' : Cluster} (h : c.Alike c') : c'.Alike c := by
  induction h with
  | leaf units => exact .leaf units.symm
  | merge units _ _ ihl ihr => exact .merge units.symm ihl ihr
  | mirror units _ _ ihl ihr => exact .mirror units.symm ihr ihl

theorem Alike.size_eq {c c' : Cluster} (h : c.Alike c') : c.size = c'.size := by
  have hlen := h.units_perm.length_eq
  rwa [units, units, List.length_map, List.length_map] at hlen

theorem units_join_perm (i : Int) (l r : Cluster) (k : Binary64) :
    (join i l r k).units.Perm (l.units ++ r.units) := by
  have h := (Member.union_perm l.members r.members).map Member.unit
  rwa [List.map_append] at h

/-- Alike trees are joined to alike trees, in the same order or with the children exchanged. -/
theorem Alike.join {l l' r r' : Cluster} (i i' : Int) (k : Binary64)
    (h : l.Alike l' ∧ r.Alike r' ∨ l.Alike r' ∧ r.Alike l') :
    (Cluster.join i l r k).Alike (Cluster.join i' l' r' k) := by
  have hunits := units_join_perm i l r k
  have hunits' := units_join_perm i' l' r' k
  rcases h with ⟨hl, hr⟩ | ⟨hl, hr⟩
  · exact .merge ((hunits.trans (hl.units_perm.append hr.units_perm)).trans hunits'.symm) hl hr
  · refine .mirror ?_ hl hr
    have happend := (hl.units_perm.append hr.units_perm).trans List.perm_append_comm
    exact (hunits.trans happend).trans hunits'.symm

end Cluster

/-! ### Outlines -/

/-- The units of a cluster, in any order. -/
def Cluster.unitSet (c : Cluster) : Multiset CodeUnit := c.units

/-- The units of a module, in any order, and its cohesion. -/
def Module.outline (M : Module) : Multiset CodeUnit × Binary64 := (M.cluster.unitSet, M.cohesion)

/-- The units of the clusters chosen in a tree, in any order, and their cohesion. -/
def Cluster.outlines (m : CouplingMatrix) (t : Binary64) (c : Cluster) :
    List (Multiset CodeUnit × Binary64) :=
  (c.chosen m t).map fun p => (p.1.unitSet, p.2)

theorem Cluster.Alike.unitSet_eq {c c' : Cluster} (h : c.Alike c') : c.unitSet = c'.unitSet :=
  Multiset.coe_eq_coe.2 h.units_perm

theorem Cluster.outlines_leaf (m : CouplingMatrix) (t : Binary64) (i : Int) (ms : List Member) :
    (leaf i ms).outlines m t = [((leaf i ms).unitSet, .zero false)] := rfl

theorem Cluster.outlines_merge (m : CouplingMatrix) (t : Binary64) (i : Int) (ms : List Member)
    (l r : Cluster) (k : Binary64) :
    (merge i ms l r k).outlines m t =
      if t.lt (m.averageInternalCoupling (merge i ms l r k)) then
        [((merge i ms l r k).unitSet, m.averageInternalCoupling (merge i ms l r k))]
      else l.outlines m t ++ r.outlines m t := by
  rw [outlines, chosen_merge]
  split
  · rfl
  · rw [List.map_append]
    rfl

theorem Dendrogram.map_cut_outline {m : CouplingMatrix} {d : Dendrogram} {root : Cluster}
    (h : d.root? = some root) (t : Binary64) :
    (d.cut m t).modules.map Module.outline = root.outlines m t := by
  rw [Cluster.outlines, ← map_cut_modules h, List.map_map]
  rfl

/-- The calls of a list between two units in both directions. -/
def Call.exchanged (calls : List Call) (a b : CodeUnit) : Int := tally calls a b + tally calls b a

theorem Call.exchanged_comm (calls : List Call) (a b : CodeUnit) :
    exchanged calls a b = exchanged calls b a :=
  add_comm _ _

namespace CouplingMatrix

/-! ### Numbers of calls by units -/

section

variable {units : List CodeUnit} {calls : List Call} {m : CouplingMatrix}
  (h : build units calls = .ok m) (hsum : sumOf (calls.map (·.count)) < 2 ^ 63)

theorem nodup_of_build (h : build units calls = .ok m) : m.units.toList.Nodup := by
  rw [(exists_of_build_eq_ok h).2.1, List.toList_toArray]
  exact CodeUnit.nodup_of_pairwise (pairwise_of_build h)

include h hsum

theorem weight_of_members {a b : Member} (ha : a ∈ m.members) (hb : b ∈ m.members) :
    m.weight a.index b.index = Call.exchanged calls a.unit b.unit := by
  obtain ⟨i, -, rfl⟩ := List.mem_map.1 ha
  obtain ⟨j, -, rfl⟩ := List.mem_map.1 hb
  exact weight_of_build h hsum i j

/-- The calls between two clusters depend on their units only. -/
theorem crossSum_units {c d : Cluster} (hc : c.members ⊆ m.members) (hd : d.members ⊆ m.members) :
    crossSum m.weight c.indices d.indices = crossSum (Call.exchanged calls) c.units d.units := by
  rw [Cluster.indices, Cluster.indices, Cluster.units, Cluster.units, crossSum_map, crossSum_map]
  exact crossSum_congr fun a ha b hb => weight_of_members h hsum (hc ha) (hd hb)

theorem pairSum_units {c : Cluster} (hc : c.members ⊆ m.members) :
    pairSum m.weight c.indices = pairSum (Call.exchanged calls) c.units := by
  rw [Cluster.indices, Cluster.units, pairSum_map, pairSum_map]
  exact pairSum_congr fun a ha b hb => weight_of_members h hsum (hc ha) (hc hb)

end

section

variable {units units' : List CodeUnit} {calls : List Call} {m m' : CouplingMatrix}
  (h : build units calls = .ok m) (h' : build units' calls = .ok m')

include h h'

theorem normalize_of_build (k : Int) : m.normalize k = m'.normalize k := by
  rw [normalize, normalize, total_of_build h, total_of_build h']

variable (hsum : sumOf (calls.map (·.count)) < 2 ^ 63)

include hsum

/-- Alike trees have the same average internal coupling. -/
theorem averageInternalCoupling_alike {c c' : Cluster} (hc : m.Linked c) (hc' : m'.Linked c')
    (halike : c.Alike c') : m.averageInternalCoupling c = m'.averageInternalCoupling c' := by
  have hcalls : m.internalCalls c.indices = m'.internalCalls c'.indices := by
    rw [internalCalls_eq_ofInt, internalCalls_eq_ofInt, pairSum_units h hsum hc.members_subset,
      pairSum_units h' hsum hc'.members_subset,
      pairSum_perm (Call.exchanged_comm calls) halike.units_perm]
  simp only [averageInternalCoupling, halike.size_eq, hcalls, normalize_of_build h h']

/-- In alike trees alike clusters are chosen. -/
theorem outlines_alike {c c' : Cluster} (hc : m.Linked c) (hc' : m'.Linked c')
    (halike : c.Alike c') (t : Binary64) : (c.outlines m t).Perm (c'.outlines m' t) := by
  induction halike with
  | leaf units =>
      rw [Cluster.outlines_leaf, Cluster.outlines_leaf, (Cluster.Alike.leaf units).unitSet_eq]
  | merge units left right ihl ihr =>
      have halike := Cluster.Alike.merge units left right
      rw [Cluster.outlines_merge, Cluster.outlines_merge, halike.unitSet_eq,
        averageInternalCoupling_alike h h' hsum hc hc' halike]
      split
      · exact .refl _
      · exact (ihl hc.of_merge.1 hc'.of_merge.1).append (ihr hc.of_merge.2 hc'.of_merge.2)
  | mirror units left right ihl ihr =>
      have halike := Cluster.Alike.mirror units left right
      rw [Cluster.outlines_merge, Cluster.outlines_merge, halike.unitSet_eq,
        averageInternalCoupling_alike h h' hsum hc hc' halike]
      split
      · exact .refl _
      · -- the left child of the one tree is the right child of the other
        have hboth := (ihl hc.of_merge.1 hc'.of_merge.2).append (ihr hc.of_merge.2 hc'.of_merge.1)
        exact hboth.trans List.perm_append_comm

end

end CouplingMatrix

/-! ### Side by side -/

namespace Linkage

/-- Each cluster in use on one side is alike to one that is in use on the other side. -/
def Follows {n n' : Nat} (s : Linkage n) (s' : Linkage n') : Prop :=
  ∀ x ∈ s.slots, ∃ x' ∈ s'.slots, (s.node x).Alike (s'.node x')

/-- No two clusters in use have the same units. -/
theorem Forest.eq_of_units {m : CouplingMatrix} {made : List Cluster} {s : Linkage m.units.size}
    (hf : Forest m made s) (hunits : m.units.toList.Nodup) {x y : Fin m.units.size}
    (hx : x ∈ s.slots) (hy : y ∈ s.slots) (hperm : (s.node x).units.Perm (s.node y).units) :
    x = y := by
  have hcovers : (s.slots.flatMap fun z => (s.node z).units).Perm m.units.toList := by
    have h := hf.covers.map Member.unit
    rwa [CouplingMatrix.members_units, List.map_flatMap] at h
  obtain ⟨a, ha⟩ := List.exists_mem_of_ne_nil _ (hf.linked x hx).members_ne_nil
  have hax : a.unit ∈ (s.node x).units := List.mem_map_of_mem ha
  exact eq_of_mem_flatMap (hcovers.nodup_iff.2 hunits) hx hy hax (hperm.mem_iff.1 hax)

theorem Follows.after {m m' : CouplingMatrix} {made made' : List Cluster}
    {s : Linkage m.units.size} {s' : Linkage m'.units.size} (hfollows : s.Follows s')
    (hf : Forest m made s) (hf' : Forest m' made' s') (hunits : m.units.toList.Nodup)
    {x y : Fin m.units.size} {x' y' : Fin m'.units.size} (hx : x ∈ s.slots) (hy : y ∈ s.slots)
    (hx' : x' ∈ s'.slots) (hxy' : x' ≠ y')
    (hpair : (s.node x).Alike (s'.node x') ∧ (s.node y).Alike (s'.node y') ∨
      (s.node x).Alike (s'.node y') ∧ (s.node y).Alike (s'.node x'))
    {c c' : Cluster} (hc : c.Alike c') :
    (s.after (s.scored m x y) c).Follows (s'.after (s'.scored m' x' y') c') := by
  -- what is alike to a joined cluster of the other side was joined
  have hjoined : ∀ z ∈ s.slots, ∀ z' ∈ s'.slots, (s.node z).Alike (s'.node z') →
      z' = x' ∨ z' = y' → z = x ∨ z = y := by
    intro z hz z' _ halike hz'
    have hsame : ∀ w ∈ s.slots, (s.node w).Alike (s'.node z') → z = w := fun w hw hw' =>
      hf.eq_of_units hunits hz hw (halike.units_perm.trans hw'.units_perm.symm)
    rcases hpair with ⟨hx', hy'⟩ | ⟨hx', hy'⟩ <;> rcases hz' with rfl | rfl
    · exact Or.inl (hsame x hx hx')
    · exact Or.inr (hsame y hy hy')
    · exact Or.inr (hsame y hy hy')
    · exact Or.inl (hsame x hx hx')
  intro z hz
  obtain ⟨hzy, hz⟩ := hf.sound.slots_nodup.mem_erase_iff.1 hz
  by_cases hzx : z = x
  · refine ⟨x', hf'.sound.slots_nodup.mem_erase_iff.2 ⟨hxy', hx'⟩, ?_⟩
    rwa [node_after, node_after, first_scored, first_scored, if_pos hzx, if_pos rfl]
  · obtain ⟨z', hz', halike⟩ := hfollows z hz
    have hother : ¬(z' = x' ∨ z' = y') := fun h =>
      (hjoined z hz z' hz' halike h).elim hzx hzy
    refine ⟨z', hf'.sound.slots_nodup.mem_erase_iff.2 ⟨fun h => hother (Or.inr h), hz'⟩, ?_⟩
    rwa [node_after, node_after, first_scored, first_scored, if_neg hzx,
      if_neg fun h => hother (Or.inl h)]

/-- The pair with the most calls has no other one beside it. -/
theorem Unrivalled.eq_or_eq {m : CouplingMatrix} {s : Linkage m.units.size} (h : s.Unrivalled m)
    {x y u v : Fin m.units.size} (hp : s.Picks m x y) (hu : u ∈ s.slots) (hv : v ∈ s.slots)
    (huv : u ≠ v) (hle : s.calls m x y ≤ s.calls m u v) : u = x ∧ v = y ∨ u = y ∧ v = x := by
  obtain ⟨p, -, hunique⟩ := h
  have hxy : (x, y) = p := hunique _ ⟨hp.first_mem, hp.second_mem, hp.lt, hp.greatest⟩
  have hall : ∀ a ∈ s.slots, ∀ b ∈ s.slots, a < b → s.calls m a b ≤ s.calls m u v :=
    fun a ha b hb hab => (hp.greatest a ha b hb hab).trans hle
  rcases lt_or_gt_of_ne huv with hlt | hlt
  · have huv : (u, v) = p := hunique _ ⟨hu, hv, hlt, hall⟩
    cases huv.trans hxy.symm
    exact Or.inl ⟨rfl, rfl⟩
  · rw [s.calls_comm] at hall
    have hvu : (v, u) = p := hunique _ ⟨hv, hu, hlt, hall⟩
    cases hvu.trans hxy.symm
    exact Or.inr ⟨rfl, rfl⟩

/-- Two linkages between the same joins: each cluster in use on either side is alike to one on the
other side. -/
structure SideBySide (m m' : CouplingMatrix) (made made' : List Cluster)
    (s : Linkage m.units.size) (s' : Linkage m'.units.size) : Prop where
  /-- The one side. -/
  forest : Forest m made s
  /-- The other side. -/
  forest' : Forest m' made' s'
  /-- What is in use on the one side is in use on the other side. -/
  forth : s.Follows s'
  /-- What is in use on the other side is in use on the one side. -/
  back : s'.Follows s

theorem SideBySide.symm {m m' : CouplingMatrix} {made made' : List Cluster}
    {s : Linkage m.units.size} {s' : Linkage m'.units.size}
    (hside : SideBySide m m' made made' s s') : SideBySide m' m made' made s' s :=
  ⟨hside.forest', hside.forest, hside.back, hside.forth⟩

/-- Two clusters in use have two partners on the other side. -/
theorem SideBySide.exists_partners {m m' : CouplingMatrix} {made made' : List Cluster}
    {s : Linkage m.units.size} {s' : Linkage m'.units.size}
    (hside : SideBySide m m' made made' s s') (hunits : m.units.toList.Nodup)
    {x y : Fin m.units.size} (hx : x ∈ s.slots) (hy : y ∈ s.slots) (hxy : x ≠ y) :
    ∃ x' ∈ s'.slots, ∃ y' ∈ s'.slots, x' ≠ y' ∧ (s.node x).Alike (s'.node x') ∧
      (s.node y).Alike (s'.node y') := by
  obtain ⟨x', hx', hxx'⟩ := hside.forth x hx
  obtain ⟨y', hy', hyy'⟩ := hside.forth y hy
  refine ⟨x', hx', y', hy', ?_, hxx', hyy'⟩
  rintro rfl
  exact hxy (hside.forest.eq_of_units hunits hx hy (hxx'.units_perm.trans hyy'.units_perm.symm))

section

variable {units units' : List CodeUnit} {calls : List Call} {m m' : CouplingMatrix}
  (h : CouplingMatrix.build units calls = .ok m) (h' : CouplingMatrix.build units' calls = .ok m')

include h h'

theorem follows_start (hsub : units ⊆ units') : (Linkage.start m).Follows (Linkage.start m') := by
  intro x _
  have hx := hsub (List.mem_of_getElem? (CouplingMatrix.getElem?_units_of_build h x))
  obtain ⟨x', hx'⟩ := CouplingMatrix.exists_position h' hx
  refine ⟨x', List.mem_finRange x', ?_⟩
  rw [node_start, node_start]
  refine .leaf (.of_eq ?_)
  simp [Cluster.units, Cluster.members, hx']

variable (hsum : sumOf (calls.map (·.count)) < 2 ^ 63) {made made' : List Cluster}
  {s : Linkage m.units.size} {s' : Linkage m'.units.size}
  (hside : SideBySide m m' made made' s s')

include hsum hside

/-- Alike clusters have the same calls between them. -/
theorem calls_alike {x y : Fin m.units.size} {x' y' : Fin m'.units.size} (hx : x ∈ s.slots)
    (hy : y ∈ s.slots) (hx' : x' ∈ s'.slots) (hy' : y' ∈ s'.slots)
    (hxx' : (s.node x).Alike (s'.node x')) (hyy' : (s.node y).Alike (s'.node y')) :
    s.calls m x y = s'.calls m' x' y' := by
  rw [Linkage.calls, Linkage.calls,
    CouplingMatrix.crossSum_units h hsum (hside.forest.linked x hx).members_subset
      (hside.forest.linked y hy).members_subset,
    CouplingMatrix.crossSum_units h' hsum (hside.forest'.linked x' hx').members_subset
      (hside.forest'.linked y' hy').members_subset]
  exact crossSum_perm _ hxx'.units_perm hyy'.units_perm

/-- Without a tie the pairs with the most calls on the two sides are alike. -/
theorem alike_of_picks (hunrivalled : s.Unrivalled m) {x y : Fin m.units.size}
    {x' y' : Fin m'.units.size} (hp : s.Picks m x y) (hp' : s'.Picks m' x' y') :
    (s.node x).Alike (s'.node x') ∧ (s.node y).Alike (s'.node y') ∨
      (s.node x).Alike (s'.node y') ∧ (s.node y).Alike (s'.node x') := by
  obtain ⟨a, ha, b, hb, hab, hxa, hyb⟩ := hside.exists_partners
    (CouplingMatrix.nodup_of_build h) hp.first_mem hp.second_mem (ne_of_lt hp.lt)
  obtain ⟨u, hu, v, hv, huv, hxu, hyv⟩ := hside.symm.exists_partners
    (CouplingMatrix.nodup_of_build h') hp'.first_mem hp'.second_mem (ne_of_lt hp'.lt)
  -- the partners of the pair on the other side have as many calls as the pair on this side
  have hle : s.calls m x y ≤ s.calls m u v :=
    calc s.calls m x y = s'.calls m' a b :=
          calls_alike h h' hsum hside hp.first_mem hp.second_mem ha hb hxa hyb
      _ ≤ s'.calls m' x' y' := hp'.calls_le ha hb hab
      _ = s.calls m u v :=
          calls_alike h' h hsum hside.symm hp'.first_mem hp'.second_mem hu hv hxu hyv
  rcases hunrivalled.eq_or_eq hp hu hv huv hle with ⟨rfl, rfl⟩ | ⟨rfl, rfl⟩
  · exact Or.inl ⟨hxu.symm, hyv.symm⟩
  · exact Or.inr ⟨hyv.symm, hxu.symm⟩

/-- Without a tie both sides join the same clusters. -/
theorem exists_step_alike (hlen : 2 ≤ s.slots.length) (hunrivalled : s.Unrivalled m) {c : Cluster}
    {t : Linkage m.units.size}
    (hstep : s.step m ((m.units.size : Int) + (made.length : Int)) = some (c, t)) :
    ∃ c' t', s'.step m' ((m'.units.size : Int) + (made'.length : Int)) = some (c', t') ∧
      c.Alike c' ∧ SideBySide m m' (made ++ [c]) (made' ++ [c']) t t' ∧
      t.slots.length = s.slots.length - 1 := by
  have hnodup := CouplingMatrix.nodup_of_build h
  have hnodup' := CouplingMatrix.nodup_of_build h'
  obtain ⟨x, y, c, t, hp, hc, ht, hstep', hft⟩ :=
    hside.forest.step (CouplingMatrix.bounded_of_build h hsum) hlen
  rw [hstep] at hstep'
  cases hstep'
  obtain ⟨a, ha, b, hb, hab, -, -⟩ :=
    hside.exists_partners hnodup hp.first_mem hp.second_mem (ne_of_lt hp.lt)
  obtain ⟨x', y', c', t', hp', hc', ht', hstep', hft'⟩ :=
    hside.forest'.step (CouplingMatrix.bounded_of_build h' hsum) (two_le_length ha hb hab)
  have hpair := alike_of_picks h h' hsum hside hunrivalled hp hp'
  have hpair' : (s'.node x').Alike (s.node x) ∧ (s'.node y').Alike (s.node y) ∨
      (s'.node x').Alike (s.node y) ∧ (s'.node y').Alike (s.node x) :=
    hpair.imp (fun h => ⟨h.1.symm, h.2.symm⟩) fun h => ⟨h.2.symm, h.1.symm⟩
  have hcalls : s.calls m x y = s'.calls m' x' y' := by
    rcases hpair with ⟨hx, hy⟩ | ⟨hx, hy⟩
    · exact calls_alike h h' hsum hside hp.first_mem hp.second_mem hp'.first_mem hp'.second_mem
        hx hy
    · rw [s'.calls_comm]
      exact calls_alike h h' hsum hside hp.first_mem hp.second_mem hp'.second_mem hp'.first_mem
        hx hy
  have halike : c.Alike c' := by
    rw [hc, hc', joined, joined, hcalls, CouplingMatrix.normalize_of_build h h']
    exact .join _ _ _ hpair
  refine ⟨c', t', hstep', halike, ⟨hft, hft', ?_, ?_⟩, ?_⟩
  · rw [ht, ht']
    exact hside.forth.after hside.forest hside.forest' hnodup hp.first_mem hp.second_mem
      hp'.first_mem (ne_of_lt hp'.lt) hpair halike
  · rw [ht, ht']
    exact hside.back.after hside.forest' hside.forest hnodup' hp'.first_mem hp'.second_mem
      hp.first_mem (ne_of_lt hp.lt) hpair' halike.symm
  · rw [ht]
    exact length_slots_after s x hp.second_mem c

omit hside in
/-- **Without ties both sides make the same clusters**, one after the other. -/
theorem exists_steps_alike {id : Int} {t : Linkage m.units.size} {new : List Cluster}
    (hsteps : Steps m id s new t) (hside : SideBySide m m' made made' s s')
    (hid : id = (m.units.size : Int) + (made.length : Int)) (hlen : new.length < s.slots.length)
    (htie : TieFree m id new.length s) :
    ∃ new' t', Steps m' ((m'.units.size : Int) + (made'.length : Int)) s' new' t' ∧
      List.Forall₂ Cluster.Alike new new' ∧
      SideBySide m m' (made ++ new) (made' ++ new') t t' := by
  induction hsteps generalizing made made' s' with
  | nil id s => exact ⟨[], s', .nil _ s', .nil, by simpa using hside⟩
  | @cons id s s₁ t c cs hfirst _ ih =>
      rw [List.length_cons] at hlen htie
      rw [hid] at hfirst
      obtain ⟨hunrivalled, hnext⟩ := htie
      rw [hid, hfirst] at hnext
      obtain ⟨c', s₁', hfirst', halike, hside₁, hslots⟩ :=
        exists_step_alike h h' hsum hside (by omega) hunrivalled hfirst
      have hid₁ : id + 1 = (m.units.size : Int) + ((made ++ [c]).length : Int) := by
        rw [hid, List.length_append, List.length_singleton]
        omega
      have hid₁' : (m'.units.size : Int) + ((made' ++ [c']).length : Int) =
          (m'.units.size : Int) + (made'.length : Int) + 1 := by
        rw [List.length_append, List.length_singleton]
        omega
      rw [← hid] at hnext
      obtain ⟨cs', t', hsteps', halikes, hside'⟩ := ih hside₁ hid₁ (by omega) hnext
      rw [hid₁'] at hsteps'
      rw [List.append_assoc, List.append_assoc] at hside'
      exact ⟨c' :: cs', t', .cons hfirst' hsteps', .cons halike halikes, hside'⟩

end

end Linkage

/-! ### Permuted units -/

namespace Dendrogram

section

variable {units units' : List CodeUnit} {calls : List Call} {m m' : CouplingMatrix}
  (h : CouplingMatrix.build units calls = .ok m) (h' : CouplingMatrix.build units' calls = .ok m')
  (hn : 2 ≤ units.length) (hsum : sumOf (calls.map (·.count)) < 2 ^ 63) (htie : m.TieFree)
  (hperm : units.Perm units')

include h h' hn hsum htie hperm

/-- Without ties the merges for permuted units are alike one by one, and so are the roots. -/
theorem merges_alike : List.Forall₂ Cluster.Alike (ofMatrix m).merges (ofMatrix m').merges ∧
    ∃ root root', (ofMatrix m).root? = some root ∧ (ofMatrix m').root? = some root' ∧
      root.Alike root' := by
  have hsize := CouplingMatrix.size_of_build h
  have hsize' := CouplingMatrix.size_of_build h'
  have hlength := hperm.length_eq
  obtain ⟨s, hsteps, hf, hlen⟩ :=
    exists_steps (CouplingMatrix.bounded_of_build h hsum) (by omega)
  have hstart : Linkage.SideBySide m m' [] [] (Linkage.start m) (Linkage.start m') :=
    ⟨.start m, .start m', Linkage.follows_start h h' hperm.subset,
      Linkage.follows_start h' h hperm.symm.subset⟩
  have hslots : (ofMatrix m).merges.length < (Linkage.start m).slots.length := by
    rw [Linkage.slots_start, List.length_finRange]
    omega
  have hfree : Linkage.TieFree m m.units.size (ofMatrix m).merges.length (Linkage.start m) := by
    rw [hlen]
    exact htie
  obtain ⟨merges', s', hsteps', halike, hside⟩ :=
    Linkage.exists_steps_alike h h' hsum hsteps hstart (by simp) hslots hfree
  rw [List.length_nil, Int.natCast_zero, Int.add_zero] at hsteps'
  have hmerges' : (ofMatrix m').merges = merges' :=
    merges_eq_of_steps hsteps' (by rw [← halike.length_eq]; omega)
  subst hmerges'
  obtain ⟨x, root, hx, hroot, rfl⟩ := exists_root_slot hf hlen (by omega)
  obtain ⟨x', root', hx', hroot', rfl⟩ :=
    exists_root_slot hside.forest' (by rw [← halike.length_eq]; omega) (by omega)
  refine ⟨halike, _, _, hroot, hroot', ?_⟩
  obtain ⟨z, hz, hxz⟩ := hside.forth x (hx ▸ List.mem_singleton_self x)
  rw [hx', List.mem_singleton] at hz
  rwa [hz] at hxz

/-- So the cuts have the same modules, up to the order of the modules and of their units. -/
theorem cut_alike (t : Binary64) : (((ofMatrix m).cut m t).modules.map Module.outline).Perm
    (((ofMatrix m').cut m' t).modules.map Module.outline) := by
  obtain ⟨-, root, root', hroot, hroot', halike⟩ := merges_alike h h' hn hsum htie hperm
  rw [map_cut_outline hroot, map_cut_outline hroot']
  have hlinked := linked_of_root? (CouplingMatrix.bounded_of_build h hsum) hroot
  have hlinked' := linked_of_root? (CouplingMatrix.bounded_of_build h' hsum) hroot'
  exact CouplingMatrix.outlines_alike h h' hsum hlinked hlinked' halike t

omit h' in
/-- **Only ties depend on the order of the units**: take accepted calls between at least two units
whose counts sum to less than `2 ^ 63`, and let one pair of clusters alone have the most calls
before each join.  When the units are permuted the calls are accepted as well, the merges are alike
one by one, that is, they have the same units, couplings and children, and at every threshold the
modules have the same units and cohesion. -/
theorem alike_of_perm : ∃ m', CouplingMatrix.build units' calls = .ok m' ∧
    List.Forall₂ Cluster.Alike (ofMatrix m).merges (ofMatrix m').merges ∧
    ∀ t, (((ofMatrix m).cut m t).modules.map Module.outline).Perm
      (((ofMatrix m').cut m' t).modules.map Module.outline) := by
  have hunits : units'.Pairwise fun u v => u.same v = false := by
    refine (hperm.pairwise_iff fun huv => ?_).1 (CouplingMatrix.pairwise_of_build h)
    rwa [CodeUnit.same_comm]
  have haccepted : ∀ c ∈ calls, c.Acceptable units' := fun c hc =>
    (CouplingMatrix.acceptable_of_build h hc).mono hperm.subset
  obtain ⟨m', h'⟩ := CouplingMatrix.exists_build_iff.2 ⟨hunits, haccepted⟩
  exact ⟨m', h', (merges_alike h h' hn hsum htie hperm).1, cut_alike h h' hn hsum htie hperm⟩

end

/-- Three units in another order. -/
theorem alike_of_perm_diary : ∃ m m' : CouplingMatrix,
    CouplingMatrix.build [.named "A", .named "B", .named "C"] Call.diary = .ok m ∧
    CouplingMatrix.build [.named "C", .named "A", .named "B"] Call.diary = .ok m' ∧
    m.TieFree ∧ List.Forall₂ Cluster.Alike (ofMatrix m).merges (ofMatrix m').merges ∧
    ∀ t, (((ofMatrix m).cut m t).modules.map Module.outline).Perm
      (((ofMatrix m').cut m' t).modules.map Module.outline) := by
  obtain ⟨m, hm, htie⟩ : ∃ m : CouplingMatrix,
      CouplingMatrix.build [.named "A", .named "B", .named "C"] Call.diary = .ok m ∧ m.TieFree :=
    ⟨_, by with_unfolding_all rfl, by decide +kernel⟩
  have hperm : [CodeUnit.named "A", .named "B", .named "C"].Perm
      [.named "C", .named "A", .named "B"] := by decide
  obtain ⟨m', hm', hmerges, hcut⟩ := alike_of_perm hm (by decide) (by decide) htie hperm
  exact ⟨m, m', hm, hm', htie, hmerges, hcut⟩

end Dendrogram

end Cohesion
