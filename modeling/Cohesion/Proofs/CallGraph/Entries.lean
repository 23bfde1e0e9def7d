/-
The entries of a call graph.

Each ordered pair of different units for which calls were recorded has one entry, whose count is
the sum of all counts that were recorded for the pair.

Main definitions:
* `Call.OneEach` — no two entries are of one ordered pair.

Main results:
* `CallGraph.oneEach_ofHistory` — a call graph has one entry for each pair;
* `CallGraph.count_of_mem` — the count of an entry is the tally of its pair.
-/
import Cohesion.Proofs.CallGraph.History

set_option autoImplicit false

namespace Cohesion

namespace Call

/-- No two calls of a list join the same units in the same direction. -/
def OneEach (calls : List Call) : Prop :=
  calls.Pairwise fun c d => d.joins c.caller c.callee = false

variable {x y : CodeUnit} {k : Int} {calls : List Call}

/-- What is in a list after a call was recorded is of a pair from before, or of the new one. -/
theorem of_mem_record {c : Call} (hc : c ∈ record x y k calls) :
    (∃ d ∈ calls, d.caller = c.caller ∧ d.callee = c.callee) ∨ (c.caller = x ∧ c.callee = y) := by
  induction calls with
  | nil =>
      rw [List.mem_singleton.1 hc]
      exact Or.inr ⟨rfl, rfl⟩
  | cons d calls ih =>
      rw [record] at hc
      split at hc
      · rcases List.mem_cons.1 hc with rfl | hc
        · exact Or.inl ⟨d, List.mem_cons_self, rfl, rfl⟩
        · exact Or.inl ⟨c, List.mem_cons_of_mem _ hc, rfl, rfl⟩
      · rcases List.mem_cons.1 hc with rfl | hc
        · exact Or.inl ⟨c, List.mem_cons_self, rfl, rfl⟩
        · refine (ih hc).imp_left ?_
          rintro ⟨e, he, hends⟩
          exact ⟨e, List.mem_cons_of_mem _ he, hends⟩

theorem OneEach.record (h : OneEach calls) : OneEach (record x y k calls) := by
  induction calls with
  | nil => exact List.pairwise_singleton _ _
  | cons c calls ih =>
      obtain ⟨hhead, htail⟩ := List.pairwise_cons.1 h
      rw [Call.record]
      split
      · exact List.pairwise_cons.2 ⟨hhead, htail⟩
      · rename_i hother
        refine List.pairwise_cons.2 ⟨fun d hd => ?_, ih htail⟩
        rcases of_mem_record hd with ⟨e, he, hcaller, hcallee⟩ | ⟨hcaller, hcallee⟩
        · have hne := hhead e he
          rwa [joins, hcaller, hcallee] at hne
        · -- the new call is not of the pair of the first entry
          rw [joins, hcaller, hcallee, CodeUnit.same_comm x, CodeUnit.same_comm y]
          exact Bool.eq_false_iff.2 hother

/-- Where each pair has one entry, its count is the sum of all counts of the pair. -/
theorem OneEach.count_eq_tally (h : OneEach calls) {c : Call} (hc : c ∈ calls) :
    c.count = tally calls c.caller c.callee := by
  induction calls with
  | nil => cases hc
  | cons d calls ih =>
      obtain ⟨hhead, htail⟩ := List.pairwise_cons.1 h
      rw [tally_cons]
      rcases List.mem_cons.1 hc with rfl | hc
      · have hself : c.joins c.caller c.callee = true := joins_iff.2 ⟨rfl, rfl⟩
        have hrest : tally calls c.caller c.callee = 0 := by
          refine List.sum_eq_zero fun n hn => ?_
          obtain ⟨e, he, rfl⟩ := List.mem_map.1 hn
          simp [hhead e he]
        rw [if_pos hself, hrest, add_zero]
      · have hne : d.joins c.caller c.callee = false := by
          rw [joins, CodeUnit.same_comm, CodeUnit.same_comm d.callee]
          exact hhead c hc
        rw [if_neg (Bool.eq_false_iff.1 hne), zero_add]
        exact ih htail hc

end Call

namespace CallGraph

variable {units : List CodeUnit} {history : List Call}

/-- What recording a call keeps is kept while a history is recorded. -/
theorem foldl_addCall_induction {p : List Call → Prop} {g : CallGraph} (hg : p g.calls)
    (hrecord : ∀ c ∈ history, c.caller.same c.callee = false → ∀ calls, p calls →
      p (Call.record c.caller c.callee c.count calls)) :
    p (history.foldl (fun g c => g.addCall c.caller c.callee c.count) g).calls := by
  induction history generalizing g with
  | nil => exact hg
  | cons c history ih =>
      rw [List.forall_mem_cons] at hrecord
      refine ih ?_ hrecord.2
      dsimp only
      rw [CallGraph.addCall]
      split
      · exact hg
      · rename_i hself
        exact hrecord.1 (Bool.eq_false_iff.2 hself) _ hg

/-- A call graph has one entry for each pair. -/
theorem oneEach_ofHistory (units : List CodeUnit) (history : List Call) :
    Call.OneEach (ofHistory units history).calls :=
  foldl_addCall_induction (p := Call.OneEach) List.Pairwise.nil fun _ _ _ _ h => h.record

/-- The entries are of pairs for which calls were recorded, and which are different. -/
theorem exists_of_mem_calls {e : Call} (he : e ∈ (ofHistory units history).calls) :
    ∃ c ∈ history, c.caller = e.caller ∧ c.callee = e.callee ∧ e.caller.same e.callee = false := by
  have hall : ∀ e ∈ (ofHistory units history).calls, ∃ c ∈ history,
      c.caller = e.caller ∧ c.callee = e.callee ∧ e.caller.same e.callee = false := by
    refine foldl_addCall_induction (p := fun calls => ∀ e ∈ calls, ∃ c ∈ history,
      c.caller = e.caller ∧ c.callee = e.callee ∧ e.caller.same e.callee = false) (by simp) ?_
    intro c hc hself calls hcalls e he
    rcases Call.of_mem_record he with ⟨d, hd, hcaller, hcallee⟩ | ⟨hcaller, hcallee⟩
    · rw [← hcaller, ← hcallee]
      exact hcalls d hd
    · rw [hcaller, hcallee]
      exact ⟨c, hc, rfl, rfl, hself⟩
  exact hall e he

/-- The count of an entry is the sum of all counts that were recorded for its pair. -/
theorem count_of_mem {e : Call} (he : e ∈ (ofHistory units history).calls) :
    e.count = Call.tally history e.caller e.callee := by
  obtain ⟨-, -, -, -, hself⟩ := exists_of_mem_calls he
  rw [(oneEach_ofHistory units history).count_eq_tally he, tally_calls_ofHistory hself]

end CallGraph

end Cohesion
