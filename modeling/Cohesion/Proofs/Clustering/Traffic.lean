/-
What the analysis depends on.

Clustering and cutting read the units, the calls of each pair of units in both directions together,
and their sum.  So call graphs that agree on the calls of every pair have the same analysis, however
the calls were recorded: in which order, in how many portions and in which direction.  This holds
for words that wrap around as well.

Main definitions:
* `CallGraph.SameTraffic` — two call graphs agree on the calls of every pair of units;
* `Call.Retold` — a history of calls in another order, in other portions or with the ends of calls
  exchanged;
* `CouplingMatrix.SameSums` — two matrices differ in the directions of their calls only;
* `CouplingMatrix.SameAnalysis` — two matrices have the same couplings, dendrogram and modules.

Main results:
* `Call.Retold.sameTraffic` — histories that are retold make graphs with the same traffic;
* `CouplingMatrix.SameSums.sameAnalysis` — the directions do not matter to the analysis;
* `CouplingMatrix.sameSums_of_sameTraffic` — accepted graphs with the same traffic;
* `CouplingMatrix.sameAnalysis_of_sameTraffic` — they have the same analysis.
-/
import Cohesion.Proofs.Clustering.Cut
import Cohesion.Proofs.Coupling.Totals

set_option autoImplicit false

namespace Cohesion

/-! ### Histories -/

/-- Between any two different units there are as many calls in one call graph as in the other. -/
def CallGraph.SameTraffic (g g' : CallGraph) : Prop :=
  ∀ a ∈ g.units, ∀ b ∈ g.units, a.same b = false → g.traffic a b = g'.traffic a b

namespace Call

/-- A history of calls is told in another way. -/
inductive Retold : List Call → List Call → Prop
  /-- The calls come in another order. -/
  | reorder {history history' : List Call} (h : history.Perm history') : Retold history history'
  /-- A count is recorded in two portions. -/
  | split (a b : CodeUnit) (k l : Int) (rest : List Call) :
      Retold (⟨a, b, k + l⟩ :: rest) (⟨a, b, k⟩ :: ⟨a, b, l⟩ :: rest)
  /-- Caller and callee are exchanged. -/
  | exchange (a b : CodeUnit) (k : Int) (rest : List Call) :
      Retold (⟨a, b, k⟩ :: rest) (⟨b, a, k⟩ :: rest)
  | symm {history history' : List Call} (h : Retold history history') : Retold history' history
  | trans {history history' history'' : List Call} (h : Retold history history')
      (h' : Retold history' history'') : Retold history history''

/-- Retelling a history keeps the tallies of the two directions together. -/
theorem Retold.tally_add {history history' : List Call} (h : Retold history history')
    (a b : CodeUnit) :
    tally history a b + tally history b a = tally history' a b + tally history' b a := by
  induction h with
  | reorder h => rw [tally_perm h, tally_perm h]
  | split x y k l rest =>
      have hjoins : ∀ (i j : Int) (c d : CodeUnit),
          Call.joins ⟨x, y, i⟩ c d = Call.joins ⟨x, y, j⟩ c d := fun _ _ _ _ => rfl
      simp only [tally_cons, hjoins (k + l) l, hjoins k l]
      split <;> split <;> ring
  | exchange x y k rest =>
      -- a call joins two units as its exchange joins them in the other direction
      have hjoins : ∀ c d : CodeUnit, Call.joins ⟨y, x, k⟩ c d = Call.joins ⟨x, y, k⟩ d c :=
        fun c d => Bool.and_comm _ _
      simp only [tally_cons, hjoins]
      split <;> split <;> ring
  | symm _ ih => exact ih.symm
  | trans _ _ ih ih' => exact ih.trans ih'

/-- Histories that are retold make call graphs with the same traffic. -/
theorem Retold.sameTraffic {history history' : List Call} (h : Retold history history')
    (units : List CodeUnit) :
    (CallGraph.ofHistory units history).SameTraffic (CallGraph.ofHistory units history') := by
  intro a _ b _ hab
  rw [CallGraph.traffic_ofHistory hab, CallGraph.traffic_ofHistory hab]
  exact h.tally_add a b

end Call

/-! ### Matrices with the same sums -/

theorem Table.ext_get {n : Nat} {t t' : Table n} (h : ∀ i j, t.get i j = t'.get i j) : t = t' := by
  obtain ⟨rows⟩ := t
  obtain ⟨rows'⟩ := t'
  refine congrArg Table.mk (Vector.ext fun i hi => Vector.ext fun j hj => ?_)
  exact h ⟨i, hi⟩ ⟨j, hj⟩

namespace CouplingMatrix

/-- Two matrices have the same units, the same sums of both directions and the same total. -/
inductive SameSums : CouplingMatrix → CouplingMatrix → Prop
  | mk {units : Array CodeUnit} {counts counts' symmetric : Table units.size} {total : Int64}
      (hsymmetric : symmetric = counts.addTranspose) (htotal : total = counts.sum)
      (hsymmetric' : symmetric = counts'.addTranspose) (htotal' : total = counts'.sum) :
      SameSums ⟨units, counts, symmetric, total, hsymmetric, htotal⟩
        ⟨units, counts', symmetric, total, hsymmetric', htotal'⟩

/-- Nothing that is found out about the units of two matrices differs. -/
structure SameAnalysis (m m' : CouplingMatrix) : Prop where
  /-- The number of all calls. -/
  total : m.total = m'.total
  /-- The coupling of any two units, listed or not. -/
  coupling : ∀ a b, m.coupling a b = m'.coupling a b
  /-- The pairs of units with calls between them. -/
  pairs : m.pairs = m'.pairs
  /-- All clusters. -/
  dendrogram : Dendrogram.ofMatrix m = Dendrogram.ofMatrix m'
  /-- The modules, whatever the threshold is. -/
  cut : ∀ t, (Dendrogram.ofMatrix m).cut m t = (Dendrogram.ofMatrix m').cut m' t

namespace SameSums

theorem ofCounts {units : Array CodeUnit} {counts counts' : Table units.size}
    (hsymmetric : counts.addTranspose = counts'.addTranspose) (htotal : counts.sum = counts'.sum) :
    SameSums (.ofCounts units counts) (.ofCounts units counts') := by
  have heq : CouplingMatrix.ofCounts units counts' =
      ⟨units, counts', counts.addTranspose, counts.sum, hsymmetric, htotal⟩ := by
    simp [CouplingMatrix.ofCounts, hsymmetric, htotal]
  rw [heq]
  exact .mk ..

variable {m m' : CouplingMatrix}

theorem total_eq (h : SameSums m m') : m.total = m'.total := by
  cases h
  rfl

theorem normalize_eq (h : SameSums m m') (k : Int) : m.normalize k = m'.normalize k := by
  rw [normalize, normalize, h.total_eq]

theorem weight_eq (h : SameSums m m') (i j : Int) : m.weight i j = m'.weight i j := by
  cases h
  rfl

theorem coupling_eq (h : SameSums m m') (a b : CodeUnit) : m.coupling a b = m'.coupling a b := by
  cases h
  rename_i units _ _ _ _ _ _ _ _
  rw [coupling, coupling]
  cases position? units a <;> cases position? units b <;> rfl

/-- A join makes the same cluster and leads to the same state. -/
theorem step_eq {n : Nat} (h : SameSums m m') (s : Linkage n) (id : Int) :
    s.step m id = s.step m' id := by
  have hmerged : ∀ best, s.merged m id best = s.merged m' id best := by
    intro best
    rw [Linkage.merged, Linkage.merged, h.normalize_eq]
  simp only [Linkage.step, hmerged]

/-- From the same state the same clusters are made. -/
theorem run_eq {n : Nat} (h : SameSums m m') (id : Int) (steps : Nat) (s : Linkage n) :
    Linkage.run m id steps s = Linkage.run m' id steps s := by
  induction steps generalizing id s with
  | zero => rfl
  | succ steps ih =>
      rw [Linkage.run, Linkage.run, h.step_eq]
      cases s.step m' id with
      | none => rfl
      | some next => exact congrArg (next.1 :: ·) (ih (id + 1) next.2)

theorem ofMatrix_eq (h : SameSums m m') : Dendrogram.ofMatrix m = Dendrogram.ofMatrix m' := by
  have hrun := h.run_eq (n := m.units.size) m.units.size (m.units.size - 1) (Linkage.start m)
  cases h
  exact congrArg (Dendrogram.mk _) hrun

theorem averageInternalCoupling_eq (h : SameSums m m') (c : Cluster) :
    m.averageInternalCoupling c = m'.averageInternalCoupling c := by
  have hweight : m.weight = m'.weight := funext fun i => funext (h.weight_eq i)
  simp only [averageInternalCoupling, internalCalls_eq_ofInt, hweight, h.normalize_eq]

/-- The same clusters of a tree are chosen. -/
theorem chosen_eq (h : SameSums m m') (t : Binary64) (c : Cluster) :
    c.chosen m t = c.chosen m' t := by
  induction c with
  | leaf i ms => rfl
  | merge i ms l r k ihl ihr =>
      rw [Cluster.chosen_merge, Cluster.chosen_merge, h.averageInternalCoupling_eq, ihl, ihr]

theorem cut_eq (h : SameSums m m') (d : Dendrogram) (t : Binary64) : d.cut m t = d.cut m' t := by
  have hchosen : Cluster.chosen m t = Cluster.chosen m' t := funext (h.chosen_eq t)
  simp only [Dendrogram.cut, Cluster.choose_eq_flatMap, hchosen]

/-- The directions of the calls do not matter to the analysis. -/
theorem sameAnalysis (h : SameSums m m') : SameAnalysis m m' where
  total := h.total_eq
  coupling := h.coupling_eq
  pairs := by
    cases h
    rfl
  dendrogram := h.ofMatrix_eq
  cut t := by rw [h.ofMatrix_eq, h.cut_eq]

end SameSums

/-! ### Accepted graphs -/

section

variable {units : List CodeUnit} {m m' : CouplingMatrix}

/-- Accepted calls with the same tallies of any two different units, the directions taken together,
have the same sums. -/
theorem sameSums_of_build {calls calls' : List Call} (h : build units calls = .ok m)
    (h' : build units calls' = .ok m')
    (hsame : ∀ a ∈ units, ∀ b ∈ units, a.same b = false →
      Call.tally calls a b + Call.tally calls b a = Call.tally calls' a b + Call.tally calls' b a) :
    SameSums m m' := by
  obtain ⟨counts, rfl⟩ := exists_ofCounts h
  obtain ⟨counts', rfl⟩ := exists_ofCounts h'
  have hboth : ∀ i j : Fin units.toArray.size,
      Call.tally calls units.toArray[i] units.toArray[j] +
          Call.tally calls units.toArray[j] units.toArray[i] =
        Call.tally calls' units.toArray[i] units.toArray[j] +
          Call.tally calls' units.toArray[j] units.toArray[i] := by
    intro i j
    by_cases hij : i = j
    · -- no unit calls itself in either list
      have hself := tally_self_of_build h i
      have hself' := tally_self_of_build h' i
      subst hij
      exact congrArg₂ (· + ·) (hself.trans hself'.symm) (hself.trans hself'.symm)
    · have hne : units.toArray[i].same units.toArray[j] = false :=
        Bool.eq_false_iff.2 fun heq => hij (eq_of_same_of_build h i j heq)
      exact hsame _ (by simp) _ (by simp) hne
  refine .ofCounts (Table.ext_get fun i j => ?_) ?_
  · exact (symmetric_of_build h i j).trans
      ((congrArg Int64.ofInt (hboth i j)).trans (symmetric_of_build h' i j).symm)
  · -- the totals are made up of the pairs of units
    have hsum : sumOf (calls.map (·.count)) = sumOf (calls'.map (·.count)) := by
      rw [sum_eq_pairSum h, sum_eq_pairSum h']
      exact congrArg (pairSum · _) (funext fun i => funext fun j => hboth i j)
    exact (total_of_build h).trans ((congrArg Int64.ofInt hsum).trans (total_of_build h').symm)

variable {history history' : List Call}

/-- Accepted graphs with the same traffic have the same sums. -/
theorem sameSums_of_sameTraffic (h : ofGraph (.ofHistory units history) = .ok m)
    (h' : ofGraph (.ofHistory units history') = .ok m')
    (hsame : (CallGraph.ofHistory units history).SameTraffic (.ofHistory units history')) :
    SameSums m m' := by
  rw [ofGraph, CallGraph.units_ofHistory] at h h'
  refine sameSums_of_build h h' fun a ha b hb hab => ?_
  rw [CallGraph.tally_calls_add hab, CallGraph.tally_calls_add hab]
  rw [CallGraph.SameTraffic, CallGraph.units_ofHistory] at hsame
  exact hsame a ha b hb hab

/-- **Only the traffic counts**: of two accepted call graphs over the same units that have the same
number of calls between any two different units, the directions taken together, the total, the
couplings, the pairs, the dendrogram and the modules at every threshold are the same.  So they are
the same when calls are recorded in another order, in other portions, or with caller and callee
exchanged. -/
theorem sameAnalysis_of_sameTraffic (h : ofGraph (.ofHistory units history) = .ok m)
    (h' : ofGraph (.ofHistory units history') = .ok m') :
    ((CallGraph.ofHistory units history).SameTraffic (.ofHistory units history') →
      SameAnalysis m m') ∧
    (Call.Retold history history' → SameAnalysis m m') := by
  have htraffic : (CallGraph.ofHistory units history).SameTraffic (.ofHistory units history') →
      SameAnalysis m m' := fun hsame => (sameSums_of_sameTraffic h h' hsame).sameAnalysis
  exact ⟨htraffic, fun hretold => htraffic (hretold.sameTraffic units)⟩

end

end CouplingMatrix

/-! ### A history told twice -/

/-- A history of calls between three units. -/
def Call.diary : List Call :=
  [⟨.named "A", .named "B", 3⟩, ⟨.named "B", .named "C", 2⟩]

/-- The same calls in another order, in both directions and with one of them in two portions. -/
def Call.memoir : List Call :=
  [⟨.named "C", .named "B", 1⟩, ⟨.named "B", .named "A", 3⟩, ⟨.named "B", .named "C", 1⟩]

theorem Call.retold_diary : Retold diary memoir := by
  have hportions : Retold diary
      [⟨.named "B", .named "C", 1⟩, ⟨.named "B", .named "C", 1⟩, ⟨.named "A", .named "B", 3⟩] :=
    .trans (.reorder (.swap ..)) (.split (.named "B") (.named "C") 1 1 _)
  have hfirst : Retold diary
      [⟨.named "A", .named "B", 3⟩, ⟨.named "C", .named "B", 1⟩, ⟨.named "B", .named "C", 1⟩] :=
    (hportions.trans (.exchange ..)).trans (.reorder (by decide))
  exact (hfirst.trans (.exchange ..)).trans (.reorder (.swap ..))

/-- The diary and the memoir have the same analysis, though not the same calls from the first unit
to the second one. -/
theorem CouplingMatrix.sameAnalysis_diary : ∃ m m' : CouplingMatrix,
    ofGraph (.ofHistory [.named "A", .named "B", .named "C"] Call.diary) = .ok m ∧
      ofGraph (.ofHistory [.named "A", .named "B", .named "C"] Call.memoir) = .ok m' ∧
      Call.Retold Call.diary Call.memoir ∧
      m.calls (.named "A") (.named "B") ≠ m'.calls (.named "A") (.named "B") ∧
      SameAnalysis m m' := by
  obtain ⟨m, m', hm, hm', hcalls⟩ : ∃ m m' : CouplingMatrix,
      ofGraph (.ofHistory [.named "A", .named "B", .named "C"] Call.diary) = .ok m ∧
        ofGraph (.ofHistory [.named "A", .named "B", .named "C"] Call.memoir) = .ok m' ∧
        m.calls (.named "A") (.named "B") ≠ m'.calls (.named "A") (.named "B") :=
    ⟨_, _, by with_unfolding_all rfl, by with_unfolding_all rfl, by decide +kernel⟩
  exact ⟨m, m', hm, hm', Call.retold_diary, hcalls,
    (sameAnalysis_of_sameTraffic hm hm').2 Call.retold_diary⟩

end Cohesion
