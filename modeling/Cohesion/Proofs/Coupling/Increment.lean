/-
What becomes of one call.

A call is entered into a matrix over a list of units at the places of its caller and its callee,
or it has a fault that rejects it.  It has at most one fault, because each kind of fault is looked
for only where the ones before it are absent, and none if it can be entered.  So the one case
distinction `CouplingMatrix.increment?_cases` says everything that is known of a single call.

Main definitions:
* `Call.Acceptable` — a call can be entered into a matrix over a list of units;
* `Call.Fault` — what is wrong with a call.

Main results:
* `Call.Fault.unique` — a call has at most one fault;
* `CouplingMatrix.increment?_cases` — **a call is entered, or it has a fault**;
* `CouplingMatrix.exists_increment?_iff` — the calls for which an entry is found;
* `CouplingMatrix.increment?_eq_error_iff` — the calls that cannot be entered, and why.
-/
import Cohesion.Coupling.Matrix
import Cohesion.Proofs.CallGraph.History

set_option autoImplicit false

namespace Cohesion

/-- A unit is one of a list. -/
def CodeUnit.Listed (units : List CodeUnit) (u : CodeUnit) : Prop := ∃ v ∈ units, v.same u = true

namespace Call

/-- A call can be entered into a matrix over a list of units. -/
structure Acceptable (units : List CodeUnit) (c : Call) : Prop where
  /-- The caller is listed. -/
  caller : ∃ u ∈ units, u.same c.caller = true
  /-- The callee is listed. -/
  callee : ∃ u ∈ units, u.same c.callee = true
  /-- The count is not negative. -/
  nonneg : 0 ≤ c.count
  /-- A unit may call itself only if it never does. -/
  self : c.caller.same c.callee = true → c.count = 0
  /-- The count fits into a word. -/
  fits : c.count < 2 ^ 63

/-- More units accept more calls. -/
theorem Acceptable.mono {units units' : List CodeUnit} {c : Call} (h : c.Acceptable units)
    (hsub : units ⊆ units') : c.Acceptable units' where
  caller := by
    obtain ⟨u, hu, hsame⟩ := h.caller
    exact ⟨u, hsub hu, hsame⟩
  callee := by
    obtain ⟨u, hu, hsame⟩ := h.callee
    exact ⟨u, hsub hu, hsame⟩
  nonneg := h.nonneg
  self := h.self
  fits := h.fits

/-- What is wrong with a call between the units of a list. -/
inductive Fault (units : List CodeUnit) (c : Call) : MatrixError → Prop
  | unknownCaller (h : ¬c.caller.Listed units) : Fault units c (.unknownUnit c c.caller)
  | unknownCallee (hcaller : c.caller.Listed units) (h : ¬c.callee.Listed units) :
      Fault units c (.unknownUnit c c.callee)
  | negativeCount (hcaller : c.caller.Listed units) (hcallee : c.callee.Listed units)
      (h : c.count < 0) : Fault units c (.negativeCount c)
  | selfCall (hcaller : c.caller.Listed units) (hcallee : c.callee.Listed units)
      (hself : c.caller.same c.callee = true) (h : 0 < c.count) : Fault units c (.selfCall c)
  | countTooLarge (hcaller : c.caller.Listed units) (hcallee : c.callee.Listed units)
      (hother : c.caller.same c.callee = false) (h : 2 ^ 63 ≤ c.count) :
      Fault units c (.countTooLarge c)

section Faults

variable {units : List CodeUnit} {c : Call} {e d : MatrixError}

/-- A call with a fault cannot be entered. -/
theorem Fault.not_acceptable (h : c.Fault units e) : ¬c.Acceptable units := by
  intro hok
  cases h with
  | unknownCaller hnot => exact hnot hok.caller
  | unknownCallee _ hnot => exact hnot hok.callee
  | negativeCount _ _ hneg => exact absurd hok.nonneg (by omega)
  | selfCall _ _ hself hpos => exact absurd (hok.self hself) (by omega)
  | countTooLarge _ _ _ hlarge => exact absurd hok.fits (by omega)

/-- A call has at most one fault. -/
theorem Fault.unique (h : c.Fault units e) (h' : c.Fault units d) : e = d := by
  -- each fault presupposes that those before it are absent
  cases h with
  | unknownCaller hnot => cases h' <;> first | rfl | contradiction
  | unknownCallee _ hnot => cases h' <;> first | rfl | contradiction
  | negativeCount _ _ hneg => cases h' <;> first | rfl | contradiction | omega
  | selfCall _ _ hself hpos =>
      have hnot : ¬c.caller.same c.callee = false := by simp [hself]
      cases h' <;> first | rfl | contradiction | omega
  | countTooLarge _ _ hother hlarge =>
      have hnot : ¬c.caller.same c.callee = true := by simp [hother]
      cases h' <;> first | rfl | contradiction | omega

end Faults

end Call

namespace CouplingMatrix

variable {units : Array CodeUnit} {u : CodeUnit} {c : Call}

theorem exists_position?_iff : (∃ i, position? units u = some i) ↔ u.Listed units.toList := by
  rw [← Option.isSome_iff_exists, position?, Array.isSome_findFinIdx?, ← Array.any_toList,
    List.any_eq_true, CodeUnit.Listed]

theorem position?_eq_none_iff : position? units u = none ↔ ¬u.Listed units.toList := by
  rw [← exists_position?_iff, ← Option.isSome_iff_exists, Option.not_isSome_iff_eq_none]

/-- Different units are at different places. -/
theorem ne_of_position? {v : CodeUnit} {i j : Fin units.size} (hi : position? units u = some i)
    (hj : position? units v = some j) (huv : u.same v = false) : i ≠ j := by
  rintro rfl
  have hu := CodeUnit.same_iff.1 (Array.findFinIdx?_eq_some_iff.1 hi).1
  have hv := CodeUnit.same_iff.1 (Array.findFinIdx?_eq_some_iff.1 hj).1
  rw [CodeUnit.same_iff.2 (hu.symm.trans hv)] at huv
  cases huv

/-- **What becomes of a call**: either it has a fault, which is the error, or it can be entered.
Then it adds nothing if it never happens, and else its count, at the places of its two units, which
are different. -/
theorem increment?_cases (units : Array CodeUnit) (c : Call) :
    (∃ e, increment? units c = .error e ∧ c.Fault units.toList e) ∨
      ∃ o, increment? units c = .ok o ∧ c.Acceptable units.toList ∧
        ((o = none ∧ c.count = 0) ∨
          ∃ inc, o = some inc ∧ position? units c.caller = some inc.row ∧
            position? units c.callee = some inc.column ∧ inc.row ≠ inc.column ∧
            inc.count.toInt = c.count) := by
  have hmax : Int64.maxValue.toInt = 2 ^ 63 - 1 := Int64.toInt_maxValue
  -- the cases are those of the definition, in its order
  cases hi : position? units c.caller with
  | none =>
      refine Or.inl ⟨_, ?_, .unknownCaller (position?_eq_none_iff.1 hi)⟩
      rw [increment?, hi]
  | some i =>
      have hcaller := exists_position?_iff.1 ⟨i, hi⟩
      cases hj : position? units c.callee with
      | none =>
          refine Or.inl ⟨_, ?_, .unknownCallee hcaller (position?_eq_none_iff.1 hj)⟩
          rw [increment?, hi, hj]
      | some j =>
          have hcallee := exists_position?_iff.1 ⟨j, hj⟩
          simp only [increment?, hi, hj]
          split_ifs with hneg hself hzero hlarge
          · exact Or.inl ⟨_, rfl, .negativeCount hcaller hcallee hneg⟩
          · have hzero' : c.count = 0 := by simpa using hzero
            refine Or.inr ⟨none, rfl, ?_, Or.inl ⟨rfl, hzero'⟩⟩
            exact ⟨hcaller, hcallee, by omega, fun _ => hzero', by omega⟩
          · have hzero' : c.count ≠ 0 := by simpa using hzero
            exact Or.inl ⟨_, rfl, .selfCall hcaller hcallee hself (by omega)⟩
          · have hother : c.caller.same c.callee = false := by simpa using hself
            exact Or.inl ⟨_, rfl, .countTooLarge hcaller hcallee hother (by omega)⟩
          · have hother : c.caller.same c.callee = false := by simpa using hself
            refine Or.inr ⟨_, rfl, ?_, Or.inr ⟨_, rfl, rfl, rfl, ne_of_position? hi hj hother, ?_⟩⟩
            · exact ⟨hcaller, hcallee, by omega, fun hs => absurd hs hself, by omega⟩
            · exact Int64.toInt_ofInt_of_le (by omega) (by omega)

/-- What a call that is accepted adds: nothing if it never happens, and else its count, at the
places of its two units, which are different. -/
theorem increment?_eq_ok {o : Option (Increment units.size)} (h : increment? units c = .ok o) :
    (o = none ∧ c.count = 0) ∨
      ∃ inc, o = some inc ∧ position? units c.caller = some inc.row ∧
        position? units c.callee = some inc.column ∧ inc.row ≠ inc.column ∧
        inc.count.toInt = c.count := by
  rcases increment?_cases units c with ⟨e, he, -⟩ | ⟨o', ho, -, hentered⟩
  · cases he.symm.trans h
  · obtain rfl := Except.ok.inj (ho.symm.trans h)
    exact hentered

/-- An entry is found for the calls that can be entered. -/
theorem exists_increment?_iff : (∃ o, increment? units c = .ok o) ↔ c.Acceptable units.toList := by
  rcases increment?_cases units c with ⟨e, he, hfault⟩ | ⟨o, ho, hok, -⟩
  · exact iff_of_false (by simp [he]) hfault.not_acceptable
  · exact iff_of_true ⟨o, ho⟩ hok

/-- The calls that cannot be entered, and why. -/
theorem increment?_eq_error_iff {e : MatrixError} :
    increment? units c = .error e ↔ c.Fault units.toList e := by
  rcases increment?_cases units c with ⟨d, hd, hfault⟩ | ⟨o, ho, hok, -⟩
  · rw [hd, Except.error.injEq]
    constructor
    · rintro rfl
      exact hfault
    · exact hfault.unique
  · exact iff_of_false (by simp [ho]) fun hfault => hfault.not_acceptable hok

/-- A call can be entered if nothing is wrong with it. -/
theorem acceptable_iff_forall_not_fault {units : List CodeUnit} :
    c.Acceptable units ↔ ∀ e, ¬c.Fault units e := by
  rcases increment?_cases units.toArray c with ⟨e, -, hfault⟩ | ⟨o, -, hok, -⟩
  · exact iff_of_false hfault.not_acceptable fun hnone => hnone e hfault
  · exact iff_of_true hok fun e hfault => hfault.not_acceptable hok

end CouplingMatrix

end Cohesion
