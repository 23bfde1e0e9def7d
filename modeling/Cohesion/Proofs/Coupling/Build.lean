/-
The matrices that calls make.

When a list of calls is accepted, the entry at a row and a column is the word of the sum of the
counts recorded there.  If all counts together are less than `2 ^ 63`, that word is the sum itself,
and so is every sum of entries that meets no entry twice.

Main definitions:
* `CouplingMatrix.Increment.at` — what an increment adds to an entry;
* `CouplingMatrix.recorded` — what a list of increments adds to an entry.

Main results:
* `CouplingMatrix.get_tableOf` — the entries of the table of increments;
* `CouplingMatrix.exists_of_build_eq_ok` — what is known of calls that are accepted;
* `CouplingMatrix.bounded_of_build` — counts that sum to less than `2 ^ 63` make a bounded matrix.
-/
import Cohesion.Proofs.Coupling.Increment
import Cohesion.Proofs.Coupling.Weights
import Mathlib.Data.List.Forall2
import Mathlib.Data.Fintype.BigOperators

set_option autoImplicit false

namespace Cohesion

/-- A list is mapped without an error when each of its elements is. -/
theorem mapM_eq_ok_iff {α β ε : Type} (f : α → Except ε β) (xs : List α) (ys : List β) :
    xs.mapM f = .ok ys ↔ List.Forall₂ (fun a b => f a = .ok b) xs ys := by
  induction xs generalizing ys with
  | nil => cases ys <;> simp [pure, Except.pure]
  | cons a xs ih =>
      rw [List.mapM_cons]
      cases ha : f a with
      | error e => cases ys <;> simp [bind, Except.bind, ha]
      | ok b =>
          cases hxs : xs.mapM f with
          | error e => cases ys <;> simp [bind, Except.bind, ha, hxs, ← ih]
          | ok bs => cases ys <;> simp [bind, Except.bind, pure, Except.pure, ha, hxs, ← ih]

namespace CouplingMatrix

/-! ### Increments -/

/-- What an increment adds to the entry at a row and a column. -/
def Increment.at {n : Nat} (inc : Increment n) (i j : Fin n) : Int :=
  if i = inc.row ∧ j = inc.column then inc.count.toInt else 0

/-- What a list of increments adds to the entry at a row and a column. -/
def recorded {n : Nat} (incs : List (Increment n)) (i j : Fin n) : Int :=
  (incs.map fun inc => inc.at i j).sum

section Increments

variable {n : Nat}

theorem get_addAt_eq (t : Table n) (inc : Increment n) (i j : Fin n) :
    (t.addAt inc.row inc.column inc.count).get i j = t.get i j + Int64.ofInt (inc.at i j) := by
  rw [Table.get_addAt, Increment.at]
  by_cases h : i = inc.row ∧ j = inc.column
  · rw [if_pos h, if_pos h, Int64.ofInt_toInt]
  · rw [if_neg h, if_neg h]
    exact (Int64.add_zero _).symm

/-- An entry of the table of increments is the word of the sum recorded there. -/
theorem get_tableOf (incs : List (Increment n)) (i j : Fin n) :
    (tableOf incs).get i j = Int64.ofInt (recorded incs i j) := by
  have hfold : ∀ (incs : List (Increment n)) (t : Table n),
      (incs.foldl (fun t i => t.addAt i.row i.column i.count) t).get i j =
        t.get i j + Int64.ofInt (recorded incs i j) := by
    intro incs
    induction incs with
    | nil => intro t; exact (Int64.add_zero _).symm
    | cons inc incs ih =>
        intro t
        rw [List.foldl_cons, ih, get_addAt_eq, Int64.add_assoc, ← Int64.ofInt_add]
        rfl
  rw [tableOf, hfold, Table.zero, Table.get_ofFn]
  exact Int64.zero_add _

theorem recorded_nonneg {incs : List (Increment n)} (h : ∀ inc ∈ incs, 0 ≤ inc.count.toInt)
    (i j : Fin n) : 0 ≤ recorded incs i j := by
  refine List.sum_nonneg fun k hk => ?_
  obtain ⟨inc, hinc, rfl⟩ := List.mem_map.1 hk
  unfold Increment.at
  split
  · exact h inc hinc
  · exact le_rfl

theorem recorded_self {incs : List (Increment n)} (h : ∀ inc ∈ incs, inc.row ≠ inc.column)
    (i : Fin n) : recorded incs i i = 0 := by
  refine List.sum_eq_zero fun k hk => ?_
  obtain ⟨inc, hinc, rfl⟩ := List.mem_map.1 hk
  exact if_neg fun hi => h inc hinc (hi.1.symm.trans hi.2)

/-- All entries together hold all counts. -/
theorem sum_recorded (incs : List (Increment n)) :
    ∑ i, ∑ j, recorded incs i j = (incs.map (·.count.toInt)).sum := by
  induction incs with
  | nil => simp [recorded]
  | cons inc incs ih =>
      have hone : ∑ i, ∑ j, inc.at i j = inc.count.toInt := by
        simp [Increment.at, ite_and]
      have hsplit : ∀ i j, recorded (inc :: incs) i j = inc.at i j + recorded incs i j :=
        fun _ _ => rfl
      simp only [hsplit, Finset.sum_add_distrib, hone, ih, List.map_cons, List.sum_cons]

/-- The unordered pairs of positions hold all counts, if none is on the diagonal. -/
theorem pairSum_recorded {incs : List (Increment n)} (h : ∀ inc ∈ incs, inc.row ≠ inc.column) :
    pairSum (fun i j => recorded incs i j + recorded incs j i) (List.finRange n) =
      (incs.map (·.count.toInt)).sum := by
  have hself := crossSum_self (recorded incs) (List.finRange n)
  have hdiag : ((List.finRange n).map fun i => recorded incs i i).sum = 0 := by
    simp [recorded_self h]
  rw [← sum_recorded, ← crossSum_finRange, hself, hdiag, add_zero]

end Increments

/-! ### Matrices of increments -/

section Bounded

variable {m : CouplingMatrix} {incs : List (Increment m.units.size)}

/-- The calls between two positions are some of all calls. -/
theorem recorded_add_le {n : Nat} {incs : List (Increment n)}
    (hpos : ∀ inc ∈ incs, 0 ≤ inc.count.toInt) (hne : ∀ inc ∈ incs, inc.row ≠ inc.column)
    (i j : Fin n) : recorded incs i j + recorded incs j i ≤ (incs.map (·.count.toInt)).sum := by
  by_cases hij : i = j
  · subst hij
    rw [recorded_self hne]
    refine List.sum_nonneg fun k hk => ?_
    obtain ⟨inc, hinc, rfl⟩ := List.mem_map.1 hk
    exact hpos inc hinc
  · -- an entry off the diagonal is a cross sum of two disjoint lists of one position
    have hsub : ([i] ++ [j]).Subperm (List.finRange n) :=
      List.subperm_of_subset (by simpa using hij) (by simp)
    have hone : ∀ w : Fin n → Fin n → Int, crossSum w [i] [j] = w i j := by
      simp [crossSum]
    rw [← pairSum_recorded hne, ← hone fun i j => recorded incs i j + recorded incs j i]
    refine crossSum_le_pairSum (fun a b => add_comm _ _) (fun a b => ?_) hsub
    exact add_nonneg (recorded_nonneg hpos a b) (recorded_nonneg hpos b a)

theorem weight_of_counts (hcounts : m.counts = tableOf incs)
    (hpos : ∀ inc ∈ incs, 0 ≤ inc.count.toInt) (hne : ∀ inc ∈ incs, inc.row ≠ inc.column)
    (hsum : (incs.map (·.count.toInt)).sum < 2 ^ 63) (i j : Fin m.units.size) :
    m.weight i.val j.val = recorded incs i j + recorded incs j i := by
  have hle := recorded_add_le hpos hne i j
  have h₁ := recorded_nonneg hpos i j
  have h₂ := recorded_nonneg hpos j i
  rw [weight_coe, symmetric_get, hcounts, get_tableOf, get_tableOf, ← Int64.ofInt_add]
  exact Int64.toInt_ofInt_of_le (by omega) (by omega)

/-- The pairs of positions have all counts between them. -/
theorem pairSum_weight_of_counts (hcounts : m.counts = tableOf incs)
    (hpos : ∀ inc ∈ incs, 0 ≤ inc.count.toInt) (hne : ∀ inc ∈ incs, inc.row ≠ inc.column)
    (hsum : (incs.map (·.count.toInt)).sum < 2 ^ 63) :
    pairSum m.weight m.positions = (incs.map (·.count.toInt)).sum := by
  have hw : (fun i j : Fin m.units.size => m.weight i.val j.val) =
      fun i j => recorded incs i j + recorded incs j i :=
    funext fun i => funext fun j => weight_of_counts hcounts hpos hne hsum i j
  rw [positions_eq, pairSum_map, hw, pairSum_recorded hne]

/-- Increments off the diagonal that sum to less than `2 ^ 63` make a bounded matrix. -/
theorem bounded_of_counts (hcounts : m.counts = tableOf incs)
    (hpos : ∀ inc ∈ incs, 0 ≤ inc.count.toInt) (hne : ∀ inc ∈ incs, inc.row ≠ inc.column)
    (hsum : (incs.map (·.count.toInt)).sum < 2 ^ 63) : m.Bounded where
  weight_nonneg i j := by
    by_cases h : 0 ≤ i ∧ i.toNat < m.units.size ∧ 0 ≤ j ∧ j.toNat < m.units.size
    · obtain ⟨i', rfl⟩ : ∃ i' : Fin m.units.size, i = (i'.val : Int) :=
        ⟨⟨i.toNat, h.2.1⟩, (Int.toNat_of_nonneg h.1).symm⟩
      obtain ⟨j', rfl⟩ : ∃ j' : Fin m.units.size, j = (j'.val : Int) :=
        ⟨⟨j.toNat, h.2.2.2⟩, (Int.toNat_of_nonneg h.2.2.1).symm⟩
      rw [weight_of_counts hcounts hpos hne hsum]
      exact add_nonneg (recorded_nonneg hpos _ _) (recorded_nonneg hpos _ _)
    · rw [weight, symmetricAt, dif_neg h]
      exact le_rfl
  pairSum_lt := by
    rw [pairSum_weight_of_counts hcounts hpos hne hsum]
    exact hsum

end Bounded

/-! ### Accepted calls -/

theorem same_of_position? {units : Array CodeUnit} {u : CodeUnit} {i : Fin units.size}
    (h : position? units u = some i) : units[i].same u = true :=
  (Array.findFinIdx?_eq_some_iff.1 h).1

/-- Calls that are accepted add increments off the diagonal with the same counts. -/
theorem increments_of_accepted {units : Array CodeUnit} {calls : List Call}
    {os : List (Option (Increment units.size))}
    (h : List.Forall₂ (fun call o => increment? units call = .ok o) calls os) :
    (∀ inc ∈ os.filterMap id, inc.row ≠ inc.column) ∧
      (∀ inc ∈ os.filterMap id, 0 ≤ inc.count.toInt) ∧
      ((os.filterMap id).map (·.count.toInt)).sum = sumOf (calls.map (·.count)) := by
  induction h with
  | nil => simp [sumOf]
  | @cons call o calls os hcall _ ih =>
      obtain ⟨hne, hpos, hsum⟩ := ih
      have hnonneg := (exists_increment?_iff.1 ⟨o, hcall⟩).nonneg
      rcases increment?_eq_ok hcall with ⟨rfl, hzero⟩ | ⟨inc, rfl, -, -, hoff, heq⟩
      · refine ⟨hne, hpos, ?_⟩
        simpa [sumOf, hzero] using hsum
      · have hmem : (some inc :: os).filterMap id = inc :: os.filterMap id := rfl
        rw [hmem]
        refine ⟨List.forall_mem_cons.2 ⟨hoff, hne⟩, List.forall_mem_cons.2 ⟨?_, hpos⟩, ?_⟩
        · rw [heq]
          exact hnonneg
        · simpa [sumOf, heq] using hsum

/-- Where no unit is listed twice, an increment is at the entry that stands for its two units. -/
theorem at_eq_of_positions {units : Array CodeUnit} {call : Call} {inc : Increment units.size}
    (hunits : ∀ i j : Fin units.size, units[i].same units[j] = true → i = j)
    (hrow : position? units call.caller = some inc.row)
    (hcolumn : position? units call.callee = some inc.column)
    (hcount : inc.count.toInt = call.count) (i j : Fin units.size) :
    inc.at i j = if call.joins units[i] units[j] then call.count else 0 := by
  have hrow' := CodeUnit.same_iff.1 (same_of_position? hrow)
  have hcolumn' := CodeUnit.same_iff.1 (same_of_position? hcolumn)
  have hplace : (i = inc.row ∧ j = inc.column) ↔ call.joins units[i] units[j] = true := by
    rw [Call.joins_iff]
    constructor
    · rintro ⟨rfl, rfl⟩
      exact ⟨hrow'.symm, hcolumn'.symm⟩
    · rintro ⟨hi, hj⟩
      refine ⟨hunits _ _ ?_, hunits _ _ ?_⟩
      · exact CodeUnit.same_iff.2 (hi.symm.trans hrow'.symm)
      · exact CodeUnit.same_iff.2 (hj.symm.trans hcolumn'.symm)
  rw [Increment.at, hcount]
  exact if_congr hplace rfl rfl

/-- What accepted calls add to an entry is their tally for the two units. -/
theorem recorded_of_accepted {units : Array CodeUnit} {calls : List Call}
    {os : List (Option (Increment units.size))}
    (hunits : ∀ i j : Fin units.size, units[i].same units[j] = true → i = j)
    (h : List.Forall₂ (fun call o => increment? units call = .ok o) calls os)
    (i j : Fin units.size) :
    recorded (os.filterMap id) i j = Call.tally calls units[i] units[j] := by
  induction h with
  | nil => rfl
  | @cons call o calls os hcall _ ih =>
      rw [Call.tally_cons, ← ih]
      rcases increment?_eq_ok hcall with ⟨rfl, hzero⟩ | ⟨inc, rfl, hrow, hcolumn, -, hcount⟩
      · simp [hzero]
      · rw [← at_eq_of_positions hunits hrow hcolumn hcount i j]
        rfl

section

variable {seen units : List CodeUnit} {u : CodeUnit}

theorem firstRepeated?_cons_of_listed (h : u.Listed seen) :
    firstRepeated? seen (u :: units) = some u :=
  if_pos (List.any_eq_true.2 h)

theorem firstRepeated?_cons_of_not_listed (h : ¬u.Listed seen) :
    firstRepeated? seen (u :: units) = firstRepeated? (u :: seen) units :=
  if_neg (mt List.any_eq_true.1 h)

/-- No unit is listed twice when no two units are the same. -/
theorem firstRepeated?_eq_none_iff : firstRepeated? seen units = none ↔
    (∀ u ∈ units, ∀ v ∈ seen, v.same u = false) ∧ units.Pairwise fun u v => u.same v = false := by
  induction units generalizing seen with
  | nil => simp [firstRepeated?]
  | cons u units ih =>
      by_cases hu : u.Listed seen
      · rw [firstRepeated?_cons_of_listed hu]
        obtain ⟨v, hv, hsame⟩ := hu
        refine iff_of_false (by simp) fun h => ?_
        exact absurd (h.1 u List.mem_cons_self v hv) (by simp [hsame])
      · rw [firstRepeated?_cons_of_not_listed hu, ih, List.pairwise_cons]
        have hfresh : ∀ v ∈ seen, v.same u = false :=
          fun v hv => Bool.eq_false_iff.2 fun hsame => hu ⟨v, hv, hsame⟩
        constructor
        · rintro ⟨hnew, hpair⟩
          refine ⟨List.forall_mem_cons.2 ⟨hfresh, fun w hw v hv => ?_⟩, ?_, hpair⟩
          · exact hnew w hw v (List.mem_cons_of_mem _ hv)
          · exact fun w hw => hnew w hw u List.mem_cons_self
        · rintro ⟨hnew, hhead, hpair⟩
          refine ⟨fun w hw v hv => ?_, hpair⟩
          rcases List.mem_cons.1 hv with rfl | hv
          · exact hhead w hw
          · exact hnew w (List.mem_cons_of_mem _ hw) v hv

end

theorem firstRepeated?_nil_eq_none_iff {units : List CodeUnit} :
    firstRepeated? [] units = none ↔ units.Pairwise fun v w => v.same w = false := by
  simp [firstRepeated?_eq_none_iff]

/-- Different places of a list without repeated units hold different units. -/
theorem eq_of_same {units : List CodeUnit} (h : firstRepeated? [] units = none)
    (i j : Fin units.toArray.size) (hsame : units.toArray[i].same units.toArray[j] = true) :
    i = j := by
  have hpair := List.pairwise_iff_getElem.1 (firstRepeated?_nil_eq_none_iff.1 h)
  have hdiff : ∀ i j : Fin units.toArray.size, i.val < j.val →
      units.toArray[i].same units.toArray[j] = false := by
    intro i j hlt
    simpa using hpair i j i.isLt j.isLt hlt
  rcases lt_trichotomy i.val j.val with hlt | heq | hlt
  · rw [hdiff i j hlt] at hsame
    cases hsame
  · exact Fin.ext heq
  · rw [CodeUnit.same_comm, hdiff j i hlt] at hsame
    cases hsame

/-- Calls are accepted for units of which none is listed twice, and make a table of increments. -/
theorem exists_of_build_eq_ok {units : List CodeUnit} {calls : List Call} {m : CouplingMatrix}
    (h : build units calls = .ok m) :
    firstRepeated? [] units = none ∧ m.units = units.toArray ∧
      ∃ incs : List (Increment m.units.size), m.counts = tableOf incs ∧
        (∀ inc ∈ incs, inc.row ≠ inc.column) ∧ (∀ inc ∈ incs, 0 ≤ inc.count.toInt) ∧
        (incs.map (·.count.toInt)).sum = sumOf (calls.map (·.count)) ∧
        ∀ i j, recorded incs i j = Call.tally calls (m.unitAt i) (m.unitAt j) := by
  unfold build at h
  split at h
  · cases h
  · rename_i hrep
    cases hincs : calls.mapM (increment? units.toArray) with
    | error e => rw [hincs] at h; cases h
    | ok os =>
        rw [hincs] at h
        cases h
        have hos := (mapM_eq_ok_iff _ _ _).1 hincs
        obtain ⟨hne, hpos, hsum⟩ := increments_of_accepted hos
        exact ⟨hrep, rfl, os.filterMap id, rfl, hne, hpos, hsum,
          recorded_of_accepted (eq_of_same hrep) hos⟩

/-- No two units of accepted calls are the same. -/
theorem pairwise_of_build {units : List CodeUnit} {calls : List Call} {m : CouplingMatrix}
    (h : build units calls = .ok m) : units.Pairwise fun u v => u.same v = false :=
  firstRepeated?_nil_eq_none_iff.1 (exists_of_build_eq_ok h).1

theorem exists_ofCounts {units : List CodeUnit} {calls : List Call} {m : CouplingMatrix}
    (h : build units calls = .ok m) :
    ∃ counts : Table units.toArray.size, m = ofCounts units.toArray counts := by
  obtain ⟨-, hunits, -⟩ := exists_of_build_eq_ok h
  obtain ⟨array, counts, symmetric, total, hsymmetric, htotal⟩ := m
  dsimp only at hunits
  subst hunits hsymmetric htotal
  exact ⟨counts, rfl⟩

theorem eq_of_same_of_build {units : List CodeUnit} {calls : List Call} {m : CouplingMatrix}
    (h : build units calls = .ok m) (i j : Fin m.units.size)
    (hsame : (m.unitAt i).same (m.unitAt j) = true) : i = j := by
  obtain ⟨hrep, hunits, -⟩ := exists_of_build_eq_ok h
  obtain ⟨array, counts, symmetric, total, hsymmetric, htotal⟩ := m
  subst hunits
  exact eq_of_same hrep i j hsame

theorem size_of_build {units : List CodeUnit} {calls : List Call} {m : CouplingMatrix}
    (h : build units calls = .ok m) : m.units.size = units.length := by
  rw [(exists_of_build_eq_ok h).2.1, List.size_toArray]

theorem exists_position {units : List CodeUnit} {calls : List Call} {m : CouplingMatrix}
    (h : build units calls = .ok m) {a : CodeUnit} (ha : a ∈ units) :
    ∃ i : Fin m.units.size, m.unitAt i = a := by
  obtain ⟨counts, rfl⟩ := exists_ofCounts h
  obtain ⟨i, hi, rfl⟩ := List.getElem_of_mem ha
  exact ⟨⟨i, hi⟩, rfl⟩

theorem getElem?_units_of_build {units : List CodeUnit} {calls : List Call} {m : CouplingMatrix}
    (h : build units calls = .ok m) (i : Fin m.units.size) : units[i.val]? = some (m.unitAt i) := by
  obtain ⟨counts, rfl⟩ := exists_ofCounts h
  have hi : i.val < units.length := by simpa [ofCounts] using i.isLt
  rw [List.getElem?_eq_getElem hi]
  rfl

/-- Accepted counts that sum to less than `2 ^ 63` make a bounded matrix. -/
theorem bounded_of_build {units : List CodeUnit} {calls : List Call} {m : CouplingMatrix}
    (h : build units calls = .ok m) (hsum : sumOf (calls.map (·.count)) < 2 ^ 63) :
    m.Bounded := by
  obtain ⟨-, -, incs, hcounts, hne, hpos, htotal, -⟩ := exists_of_build_eq_ok h
  exact bounded_of_counts hcounts hpos hne (htotal ▸ hsum)

end CouplingMatrix

/-! ### A small call graph -/

/-- Four units, of which two pairs have as many calls between them as each other. -/
def CallGraph.square : CallGraph where
  units := [.named "A", .named "B", .named "C", .named "D"]
  calls := [⟨.named "A", .named "C", 2⟩, ⟨.named "D", .named "B", 2⟩,
    ⟨.named "B", .named "A", 1⟩, ⟨.named "D", .named "C", 1⟩]

/-- The small call graph is accepted. -/
theorem CouplingMatrix.exists_ofGraph_square : ∃ m, ofGraph .square = .ok m :=
  ⟨_, by with_unfolding_all rfl⟩

end Cohesion
