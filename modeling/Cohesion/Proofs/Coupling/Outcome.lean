/-
What becomes of a list of calls.

Making a coupling matrix either fails or gives the sums of the counts.  It fails exactly when a
unit is listed twice, or else when some call has a fault, and then the error is that of the first
such call; a call has at most one fault, because each kind of fault is looked for only where the
ones before it are absent.  All of them are faults of the call graph but two: a count that is too
large for a word, and a negative count with more digits than a message can hold.

Where it does not fail, a sum of counts is a word, so that it wraps around.

Main definitions:
* `CouplingMatrix.Fault` — what is wrong with units and calls;
* `CouplingMatrix.Sums` — the entries of a matrix are the words of the sums of the counts.

Main results:
* `CouplingMatrix.firstRepeated?_eq_some_iff` — the unit that is listed twice;
* `CouplingMatrix.fault_iff` — the error is that of the first fault;
* `CouplingMatrix.sums_of_build` — the sums that accepted calls make;
* `CouplingMatrix.build_outcome` — **what becomes of units and calls**.
-/
import Cohesion.Proofs.Coupling.Rejection

set_option autoImplicit false

namespace Cohesion

theorem isWritable_eq_false_iff {n : Int} :
    isWritable n = false ↔ 10 ^ writtenDigitLimit ≤ n.natAbs := by
  rw [isWritable, decide_eq_false_iff_not, not_lt, Nat.pow_eq]

/-! ### Faults -/

/-- What is wrong with units and calls. -/
inductive CouplingMatrix.Fault (units : List CodeUnit) (calls : List Call) : MatrixError → Prop
  | listedTwice {front back : List CodeUnit} {u : CodeUnit} (hunits : units = front ++ u :: back)
      (hfront : front.Pairwise fun v w => v.same w = false) (h : u.Listed front) :
      Fault units calls (.listedTwice u)
  | call {front back : List Call} {c : Call} {e : MatrixError}
      (hunits : units.Pairwise fun v w => v.same w = false) (hcalls : calls = front ++ c :: back)
      (hfront : ∀ b ∈ front, ∀ d, ¬b.Fault units d) (h : c.Fault units e) : Fault units calls e

namespace CouplingMatrix

theorem listed_cons {units : List CodeUnit} {u v : CodeUnit} :
    u.Listed (v :: units) ↔ v.same u = true ∨ u.Listed units := by
  simp [CodeUnit.Listed]

/-- The unit that is listed twice is the first one that is the same as an earlier one. -/
theorem firstRepeated?_eq_some_iff {seen units : List CodeUnit} {u : CodeUnit} :
    firstRepeated? seen units = some u ↔ ∃ front back, units = front ++ u :: back ∧
      firstRepeated? seen front = none ∧ (u.Listed seen ∨ u.Listed front) := by
  induction units generalizing seen with
  | nil => simp [firstRepeated?]
  | cons w units ih =>
      by_cases hw : w.Listed seen
      · rw [firstRepeated?_cons_of_listed hw]
        constructor
        · rintro ⟨⟩
          exact ⟨[], units, rfl, rfl, Or.inl hw⟩
        · rintro ⟨front, back, heq, hfront, -⟩
          cases front with
          | nil =>
              obtain ⟨rfl, -⟩ := List.cons.inj heq
              rfl
          | cons v front =>
              obtain ⟨rfl, -⟩ := List.cons.inj heq
              rw [firstRepeated?_cons_of_listed hw] at hfront
              cases hfront
      · rw [firstRepeated?_cons_of_not_listed hw, ih]
        constructor
        · rintro ⟨front, back, rfl, hfront, hu⟩
          refine ⟨w :: front, back, rfl, ?_, ?_⟩
          · rwa [firstRepeated?_cons_of_not_listed hw]
          · rw [listed_cons] at hu ⊢
            tauto
        · rintro ⟨front, back, heq, hfront, hu⟩
          cases front with
          | nil =>
              obtain ⟨rfl, -⟩ := List.cons.inj heq
              rcases hu with hu | ⟨v, hv, -⟩
              · exact absurd hu hw
              · cases hv
          | cons v front =>
              obtain ⟨rfl, rfl⟩ := List.cons.inj heq
              rw [firstRepeated?_cons_of_not_listed hw] at hfront
              rw [listed_cons] at hu
              exact ⟨front, back, rfl, hfront, by rw [listed_cons]; tauto⟩

variable {units : List CodeUnit} {calls : List Call}

/-- Making a matrix fails with the first fault of its units, or else of its calls. -/
theorem fault_iff {e : MatrixError} : build units calls = .error e ↔ Fault units calls e := by
  constructor
  · intro h
    cases hunits : firstRepeated? [] units with
    | some u =>
        rw [build, hunits] at h
        cases h
        obtain ⟨front, back, heq, hfront, ⟨v, hv, -⟩ | hu⟩ := firstRepeated?_eq_some_iff.1 hunits
        · cases hv
        · exact .listedTwice heq (firstRepeated?_nil_eq_none_iff.1 hfront) hu
    | none =>
        obtain ⟨front, c, back, heq, hfront, hc⟩ := (build_eq_error_iff hunits).1 h
        exact .call (firstRepeated?_nil_eq_none_iff.1 hunits) heq
          (fun b hb => acceptable_iff_forall_not_fault.1 (hfront b hb))
          (increment?_eq_error_iff.1 hc)
  · intro h
    cases h with
    | @listedTwice front back u heq hfront hu =>
        have hunits : firstRepeated? [] units = some u := firstRepeated?_eq_some_iff.2
          ⟨front, back, heq, firstRepeated?_nil_eq_none_iff.2 hfront, Or.inr hu⟩
        rw [build, hunits]
    | @call front back c _ hunits heq hfront hc =>
        rw [build_eq_error_iff (firstRepeated?_nil_eq_none_iff.2 hunits)]
        exact ⟨front, c, back, heq, fun b hb => acceptable_iff_forall_not_fault.2 (hfront b hb),
          increment?_eq_error_iff.2 hc⟩

/-- Two of the faults are not faults of the call graph: a count beyond the words, and a negative
count that is too long to be told. -/
theorem Fault.isMalformed_eq_false_iff {e : MatrixError} (h : Fault units calls e) :
    e.isMalformed = false ↔ ∃ c ∈ calls, e = .countTooLarge c ∨
      e = .negativeCount c ∧ 10 ^ writtenDigitLimit ≤ c.count.natAbs := by
  cases h with
  | listedTwice => simp [MatrixError.isMalformed]
  | @call front back c _ _ heq _ hc =>
      have hmem : c ∈ calls := by simp [heq]
      cases hc with
      | unknownCaller => simp [MatrixError.isMalformed]
      | unknownCallee => simp [MatrixError.isMalformed]
      | selfCall => simp [MatrixError.isMalformed]
      | countTooLarge => simp [MatrixError.isMalformed, hmem]
      | negativeCount =>
          simp only [MatrixError.isMalformed, isWritable_eq_false_iff, reduceCtorEq, false_or,
            MatrixError.negativeCount.injEq]
          constructor
          · intro hlong
            exact ⟨c, hmem, rfl, hlong⟩
          · rintro ⟨d, -, rfl, hlong⟩
            exact hlong

/-! ### Sums -/

/-- The entries of a matrix are the words of the sums of the counts. -/
structure Sums (units : List CodeUnit) (calls : List Call) (m : CouplingMatrix) : Prop where
  /-- The units are kept in their order. -/
  listed : m.units.toList = units
  /-- The calls between two units are the counts of all calls from the one to the other. -/
  sum : ∀ a b : CodeUnit, m.calls a b = Int64.ofInt (Call.tally calls a b)
  /-- A unit does not call itself. -/
  self : ∀ a b : CodeUnit, a.same b = true → m.calls a b = 0
  /-- A unit that is not listed has no calls. -/
  unlisted : ∀ a b : CodeUnit, ¬a.Listed units ∨ ¬b.Listed units → m.calls a b = 0
  /-- All counts are summed. -/
  total : m.total = Int64.ofInt (sumOf (calls.map (·.count)))

section

variable {m : CouplingMatrix} (h : build units calls = .ok m)

include h

theorem toList_units_of_build : m.units.toList = units := by
  rw [(exists_of_build_eq_ok h).2.1]

theorem tally_eq_zero_of_not_listed {a b : CodeUnit} (hab : ¬a.Listed units ∨ ¬b.Listed units) :
    Call.tally calls a b = 0 := by
  have hfalse : ∀ u : CodeUnit, ¬u.Listed units → ∀ v ∈ units, v.same u = false := by
    intro u hu v hv
    exact Bool.eq_false_iff.2 fun hsame => hu ⟨v, hv, hsame⟩
  rcases hab with ha | hb
  · exact (tally_eq_zero_of_build h (hfalse a ha) b).1
  · exact (tally_eq_zero_of_build h (hfalse b hb) a).2

theorem tally_eq_zero_of_same {a b : CodeUnit} (hab : a.same b = true) :
    Call.tally calls a b = 0 := by
  by_cases ha : a.Listed units
  · rw [← toList_units_of_build h, ← exists_position?_iff] at ha
    obtain ⟨i, hi⟩ := ha
    have hia : (m.unitAt i).same a = true := same_of_position? hi
    have hib : (m.unitAt i).same b = true :=
      CodeUnit.same_iff.2 ((CodeUnit.same_iff.1 hia).trans (CodeUnit.same_iff.1 hab))
    rw [← Call.tally_congr calls hia hib, tally_self_of_build h]
  · exact tally_eq_zero_of_not_listed h (Or.inl ha)

/-- The calls from one unit to another are the word of the sum of their counts. -/
theorem calls_of_build (a b : CodeUnit) : m.calls a b = Int64.ofInt (Call.tally calls a b) := by
  obtain ⟨-, -, incs, hcounts, -, -, -, htally⟩ := exists_of_build_eq_ok h
  cases hi : position? m.units a with
  | none =>
      have ha := position?_eq_none_iff.1 hi
      rw [toList_units_of_build h] at ha
      rw [tally_eq_zero_of_not_listed h (Or.inl ha), CouplingMatrix.calls, hi]
      rfl
  | some i =>
      cases hj : position? m.units b with
      | none =>
          have hb := position?_eq_none_iff.1 hj
          rw [toList_units_of_build h] at hb
          rw [tally_eq_zero_of_not_listed h (Or.inr hb), CouplingMatrix.calls, hi, hj]
          rfl
      | some j =>
          have hia : (m.unitAt i).same a = true := same_of_position? hi
          have hjb : (m.unitAt j).same b = true := same_of_position? hj
          rw [← Call.tally_congr calls hia hjb, ← htally, ← get_tableOf, ← hcounts,
            CouplingMatrix.calls, hi, hj]

/-- Accepted calls make the sums of their counts. -/
theorem sums_of_build : Sums units calls m where
  listed := toList_units_of_build h
  sum := calls_of_build h
  self a b hab := by rw [calls_of_build h, tally_eq_zero_of_same h hab]; rfl
  unlisted a b hab := by rw [calls_of_build h, tally_eq_zero_of_not_listed h hab]; rfl
  total := total_of_build h

end

/-- **What becomes of units and calls**: there is no matrix exactly when there is a fault, and the
error is that of the first one.  Only counts that are beyond the words, or negative and too long to
be told, make an error that is not about the call graph.  Without a fault there is a matrix, and
its entries are the words of the sums of the counts. -/
theorem build_outcome (units : List CodeUnit) (calls : List Call) :
    (∀ e, build units calls = .error e ↔ Fault units calls e) ∧
    (∀ e, Fault units calls e → (e.isMalformed = false ↔ ∃ c ∈ calls, e = .countTooLarge c ∨
      e = .negativeCount c ∧ 10 ^ writtenDigitLimit ≤ c.count.natAbs)) ∧
    ((∀ e, ¬Fault units calls e) → ∃ m, build units calls = .ok m ∧ Sums units calls m) := by
  refine ⟨fun e => fault_iff, fun e => Fault.isMalformed_eq_false_iff, ?_⟩
  intro hnone
  cases hbuild : build units calls with
  | error e => exact absurd (fault_iff.1 hbuild) (hnone e)
  | ok m => exact ⟨m, rfl, sums_of_build hbuild⟩

/-- Two counts that fit into words, but their sum does not, and a call that never happens. -/
def wrapping : List Call :=
  [⟨.named "A", .named "B", 2 ^ 62⟩, ⟨.named "B", .named "B", 0⟩, ⟨.named "A", .named "B", 2 ^ 62⟩]

theorem build_outcome_wrapping : ∃ m, build [.named "A", .named "B"] wrapping = .ok m ∧
    (m.calls (.named "A") (.named "B")).toInt = -2 ^ 63 ∧ m.calls (.named "B") (.named "B") = 0 := by
  have haccepted : ∃ m, build [.named "A", .named "B"] wrapping = .ok m :=
    ⟨_, by with_unfolding_all rfl⟩
  obtain ⟨hfails, -, hmakes⟩ := build_outcome [.named "A", .named "B"] wrapping
  obtain ⟨m, hm, hsums⟩ := hmakes fun e he => by
    obtain ⟨m, hm⟩ := haccepted
    cases hm.symm.trans ((hfails e).2 he)
  refine ⟨m, hm, ?_, hsums.self _ _ rfl⟩
  rw [hsums.sum]
  decide

/-- Calls that are taken back more often than a message can tell. -/
def manyRetracted : Call := ⟨.named "A", .named "B", -10 ^ writtenDigitLimit⟩

/-- A negative count may make an error that is not about the call graph. -/
theorem exists_fault_manyRetracted :
    build [.named "A", .named "B"] [manyRetracted] = .error (.negativeCount manyRetracted) ∧
      MatrixError.isMalformed (.negativeCount manyRetracted) = false := by
  have hpos : (0 : Int) < 10 ^ writtenDigitLimit := Int.pow_pos (by decide)
  have hneg : manyRetracted.count < 0 := Int.neg_neg_of_pos hpos
  have hlong : 10 ^ writtenDigitLimit ≤ manyRetracted.count.natAbs := by
    simp [manyRetracted, Int.natAbs_pow]
  have hfault : Fault [.named "A", .named "B"] [manyRetracted] (.negativeCount manyRetracted) := by
    refine .call (by decide) (List.nil_append _).symm (by simp) (.negativeCount ?_ ?_ hneg)
    · exact ⟨.named "A", by simp, rfl⟩
    · exact ⟨.named "B", by simp, rfl⟩
  exact ⟨fault_iff.2 hfault,
    hfault.isMalformed_eq_false_iff.2 ⟨_, List.mem_cons_self, Or.inr ⟨rfl, hlong⟩⟩⟩

end CouplingMatrix

end Cohesion
