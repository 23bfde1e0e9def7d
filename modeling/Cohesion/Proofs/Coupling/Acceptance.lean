/-
Which calls are accepted.

Calls make a coupling matrix exactly when no unit is listed twice and every call can be entered:
both of its units are listed, its count is not negative and fits into a word, and it is no call of
a unit to itself, unless that never happens.  So whether calls are accepted does not depend on the
order of the units, and it stays so when units are added or counts are changed within bounds.

Main results:
* `CouplingMatrix.exists_build_iff` — **the calls that are accepted**;
* `CouplingMatrix.tally_eq_zero_of_build` — a unit that is not listed has no calls.
-/
import Cohesion.Proofs.Coupling.Totals

set_option autoImplicit false

namespace Cohesion

/-- A list can be mapped without an error when each of its elements can. -/
theorem exists_mapM_eq_ok_iff {α β ε : Type} {f : α → Except ε β} {xs : List α} :
    (∃ ys, xs.mapM f = .ok ys) ↔ ∀ x ∈ xs, ∃ y, f x = .ok y := by
  simp only [mapM_eq_ok_iff]
  induction xs with
  | nil => simp
  | cons x xs ih =>
      rw [List.forall_mem_cons, ← ih]
      constructor
      · rintro ⟨ys, h⟩
        cases h with
        | cons hx hxs => exact ⟨⟨_, hx⟩, _, hxs⟩
      · rintro ⟨⟨y, hx⟩, ys, hxs⟩
        exact ⟨y :: ys, .cons hx hxs⟩

namespace CouplingMatrix

/-- **Which calls are accepted**: no unit is listed twice, and each call can be entered. -/
theorem exists_build_iff {units : List CodeUnit} {calls : List Call} :
    (∃ m, build units calls = .ok m) ↔
      units.Pairwise (fun u v => u.same v = false) ∧ ∀ c ∈ calls, c.Acceptable units := by
  have hcalls : (∀ c ∈ calls, c.Acceptable units) ↔
      ∃ os, calls.mapM (increment? units.toArray) = .ok os := by
    rw [exists_mapM_eq_ok_iff]
    simp only [exists_increment?_iff]
  rw [hcalls, ← firstRepeated?_nil_eq_none_iff, build]
  cases firstRepeated? [] units with
  | some u => simp
  | none =>
      cases calls.mapM (increment? units.toArray) with
      | error e => simp [bind, Except.bind]
      | ok os => simp [bind, Except.bind]

section

variable {units : List CodeUnit} {calls : List Call} {m : CouplingMatrix}
  (h : build units calls = .ok m)

include h

/-- Calls that were accepted can be entered. -/
theorem acceptable_of_build {c : Call} (hc : c ∈ calls) : c.Acceptable units :=
  (exists_build_iff.1 ⟨m, h⟩).2 c hc

theorem count_le_of_build {c : Call} (hc : c ∈ calls) : c.count ≤ sumOf (calls.map (·.count)) :=
  Call.count_le_sum (fun _ hd => (acceptable_of_build h hd).nonneg) hc

/-- A unit that is not listed has no calls. -/
theorem tally_eq_zero_of_build {u : CodeUnit} (hu : ∀ v ∈ units, v.same u = false)
    (a : CodeUnit) : Call.tally calls u a = 0 ∧ Call.tally calls a u = 0 := by
  have hend : ∀ v : CodeUnit, (∃ w ∈ units, w.same v = true) → v.same u = false := by
    rintro v ⟨w, hw, hsame⟩
    have hwu := hu w hw
    rw [← Bool.not_eq_true, CodeUnit.same_iff] at hwu ⊢
    rw [CodeUnit.same_iff] at hsame
    exact fun hv => hwu (hsame.trans hv)
  have hcaller : ∀ c ∈ calls, c.caller.same u = false :=
    fun c hc => hend c.caller (acceptable_of_build h hc).caller
  have hcallee : ∀ c ∈ calls, c.callee.same u = false :=
    fun c hc => hend c.callee (acceptable_of_build h hc).callee
  constructor
  · refine List.sum_eq_zero fun k hk => ?_
    obtain ⟨c, hc, rfl⟩ := List.mem_map.1 hk
    simp [Call.joins, hcaller c hc]
  · refine List.sum_eq_zero fun k hk => ?_
    obtain ⟨c, hc, rfl⟩ := List.mem_map.1 hk
    simp [Call.joins, hcallee c hc]

end

end CouplingMatrix

end Cohesion
