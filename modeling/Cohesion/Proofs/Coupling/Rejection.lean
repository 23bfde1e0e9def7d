/-
Why calls are rejected.

Calls that make no coupling matrix are rejected because of a unit that is listed twice, or else
because of the first call that cannot be entered.  Most faults of a call are faults of the call
graph; but a count can also be beyond the limits: too large for a word, or negative with too many
digits to be told in a message.

Main definitions:
* `Call.OutOfRange` — a call between listed units whose count is beyond the limits.

Main results:
* `mapM_eq_error_iff` — the first element that fails decides the error;
* `CouplingMatrix.build_eq_error_iff` — the first call that cannot be entered decides the error;
* `CouplingMatrix.exists_outOfRange_iff` — **which are rejected because of the limits**.
-/
import Cohesion.Proofs.Coupling.Acceptance

set_option autoImplicit false

namespace Cohesion

/-- The first element that fails decides the error of a list. -/
theorem mapM_eq_error_iff {α β ε : Type} {f : α → Except ε β} {xs : List α} {e : ε} :
    xs.mapM f = .error e ↔ ∃ front x back, xs = front ++ x :: back ∧
      (∀ y ∈ front, ∃ z, f y = .ok z) ∧ f x = .error e := by
  induction xs with
  | nil => simp [pure, Except.pure]
  | cons a xs ih =>
      rw [List.mapM_cons]
      cases ha : f a with
      | error d =>
          simp only [bind, Except.bind, Except.error.injEq]
          constructor
          · rintro rfl
            exact ⟨[], a, xs, rfl, by simp, ha⟩
          · rintro ⟨front, x, back, heq, hfront, hx⟩
            cases front with
            | nil =>
                obtain ⟨rfl, -⟩ := List.cons.inj heq
                exact Except.error.inj (ha.symm.trans hx)
            | cons b front =>
                obtain ⟨rfl, -⟩ := List.cons.inj heq
                obtain ⟨z, hz⟩ := hfront a List.mem_cons_self
                cases ha.symm.trans hz
      | ok b =>
          have htail : (do let bs ← xs.mapM f; pure (b :: bs) : Except ε (List β)) = .error e ↔
              xs.mapM f = .error e := by
            cases xs.mapM f <;> simp [bind, Except.bind, pure, Except.pure]
          refine Iff.trans htail (ih.trans ?_)
          constructor
          · rintro ⟨front, x, back, rfl, hfront, hx⟩
            exact ⟨a :: front, x, back, rfl, List.forall_mem_cons.2 ⟨⟨b, ha⟩, hfront⟩, hx⟩
          · rintro ⟨front, x, back, heq, hfront, hx⟩
            cases front with
            | nil =>
                obtain ⟨rfl, -⟩ := List.cons.inj heq
                cases ha.symm.trans hx
            | cons c front =>
                obtain ⟨rfl, rfl⟩ := List.cons.inj heq
                exact ⟨front, x, back, rfl, (List.forall_mem_cons.1 hfront).2, hx⟩

/-- A call between listed units whose count is too large for a word, or negative with too many
digits to be written. -/
structure Call.OutOfRange (units : List CodeUnit) (c : Call) : Prop where
  /-- The caller is listed. -/
  caller : ∃ u ∈ units, u.same c.caller = true
  /-- The callee is listed. -/
  callee : ∃ u ∈ units, u.same c.callee = true
  /-- The count is beyond one of the limits; a call of a unit to itself is rejected as such. -/
  count : c.count < 0 ∧ isWritable c.count = false ∨
    2 ^ 63 ≤ c.count ∧ c.caller.same c.callee = false

/-- A fault of a call is one of the limits when its count is out of range. -/
theorem Call.Fault.isMalformed_eq_false_iff {units : List CodeUnit} {c : Call} {e : MatrixError}
    (h : c.Fault units e) : e.isMalformed = false ↔ c.OutOfRange units := by
  cases h with
  | unknownCaller hnot => exact iff_of_false Bool.noConfusion fun hout => hnot hout.caller
  | unknownCallee _ hnot => exact iff_of_false Bool.noConfusion fun hout => hnot hout.callee
  | negativeCount hcaller hcallee hneg =>
      constructor
      · exact fun hw => ⟨hcaller, hcallee, Or.inl ⟨hneg, hw⟩⟩
      · intro hout
        rcases hout.count with ⟨-, hw⟩ | ⟨hlarge, -⟩
        · exact hw
        · omega
  | selfCall _ _ hself hpos =>
      refine iff_of_false Bool.noConfusion fun hout => ?_
      rcases hout.count with ⟨hneg, -⟩ | ⟨-, hother⟩
      · omega
      · rw [hself] at hother
        cases hother
  | countTooLarge hcaller hcallee hother hlarge =>
      exact iff_of_true rfl ⟨hcaller, hcallee, Or.inr ⟨hlarge, hother⟩⟩

/-- A call whose count is out of range cannot be entered. -/
theorem Call.OutOfRange.not_acceptable {units : List CodeUnit} {c : Call}
    (h : c.OutOfRange units) : ¬c.Acceptable units := by
  intro hok
  have hnonneg := hok.nonneg
  have hfits := hok.fits
  rcases h.count with ⟨hneg, -⟩ | ⟨hlarge, -⟩ <;> omega

namespace CouplingMatrix

variable {units : List CodeUnit} {calls : List Call}

/-- Calls between units of which none is listed twice are rejected because of the first one that
cannot be entered. -/
theorem build_eq_error_iff (hunits : firstRepeated? [] units = none) {e : MatrixError} :
    build units calls = .error e ↔ ∃ front c back, calls = front ++ c :: back ∧
      (∀ b ∈ front, b.Acceptable units) ∧ increment? units.toArray c = .error e := by
  have hcalls : build units calls = .error e ↔
      calls.mapM (increment? units.toArray) = .error e := by
    rw [build, hunits]
    cases calls.mapM (increment? units.toArray) <;> simp [bind, Except.bind]
  rw [hcalls, mapM_eq_error_iff]
  simp only [exists_increment?_iff]

/-- **Which calls are rejected because of the limits**: no unit is listed twice, and the first call
that cannot be entered has a count that is out of range. -/
theorem exists_outOfRange_iff :
    (∃ e, build units calls = .error e ∧ e.isMalformed = false) ↔
      units.Pairwise (fun u v => u.same v = false) ∧ ∃ front c back, calls = front ++ c :: back ∧
        (∀ b ∈ front, b.Acceptable units) ∧ c.OutOfRange units := by
  rw [← firstRepeated?_nil_eq_none_iff]
  constructor
  · rintro ⟨e, he, hlimit⟩
    cases hunits : firstRepeated? [] units with
    | some u =>
        rw [build, hunits] at he
        cases he
        cases hlimit
    | none =>
        obtain ⟨front, c, back, heq, hfront, hc⟩ := (build_eq_error_iff hunits).1 he
        have hfault := increment?_eq_error_iff.1 hc
        exact ⟨rfl, front, c, back, heq, hfront, hfault.isMalformed_eq_false_iff.1 hlimit⟩
  · rintro ⟨hunits, front, c, back, heq, hfront, hc⟩
    rcases increment?_cases units.toArray c with ⟨e, he, hfault⟩ | ⟨o, -, hok, -⟩
    · exact ⟨e, (build_eq_error_iff hunits).2 ⟨front, c, back, heq, hfront, he⟩,
        hfault.isMalformed_eq_false_iff.2 hc⟩
    · exact absurd hok hc.not_acceptable

end CouplingMatrix

end Cohesion
