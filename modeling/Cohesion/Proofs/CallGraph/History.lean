/-
The counts of a call graph are sums over its history.

A call graph is made by recording calls one after the other.  Recording adds to the entry of an
ordered pair, or makes one, so in the end the entry of a pair holds the sum of all counts that were
recorded for it, in whatever order and in however many portions that was done.

Main definitions:
* `Call.tally` — the sum of the counts of all calls of a list from one unit to another;
* `Call.IsEdge` — calls from one listed unit to another one, at least one;
* `CallGraph.ofHistory` — the call graph that a list of recorded calls makes;
* `CallGraph.traffic` — the calls between two units in both directions.

Main results:
* `Call.tally_record` — recording a call adds to one tally;
* `CallGraph.tally_calls_ofHistory` — the entries of the graph have the tallies of the history;
* `CallGraph.callCount_ofHistory` — the count of a pair is its tally;
* `CallGraph.tally_calls_add` — the traffic of two units is the sum of their two tallies;
* `CallGraph.isEdge_ofHistory` — the entries of the graph are edges;
* `CallGraph.total_ofHistory` — the number of all calls.
-/
import Cohesion.CallGraph.Basic
import Mathlib.Algebra.BigOperators.Group.List.Basic
import Mathlib.Algebra.Order.BigOperators.Group.List
import Mathlib.Tactic.Ring

set_option autoImplicit false

namespace Cohesion

theorem sumOf_eq_sum (ns : List Int) : sumOf ns = ns.sum := by
  induction ns with
  | nil => rfl
  | cons n ns ih => rw [sumOf, ih, List.sum_cons]

theorem CodeUnit.same_iff {a b : CodeUnit} : a.same b = true ↔ a.qualified = b.qualified := by
  simp [CodeUnit.same]

theorem CodeUnit.same_comm (a b : CodeUnit) : a.same b = b.same a := by
  simp [CodeUnit.same, Bool.beq_comm]

theorem CodeUnit.nodup_of_pairwise {units : List CodeUnit}
    (h : units.Pairwise fun u v => u.same v = false) : units.Nodup := by
  refine h.imp fun {u v} huv heq => ?_
  rw [heq, ← Bool.not_eq_true] at huv
  exact huv (CodeUnit.same_iff.2 rfl)

namespace Call

theorem joins_iff {c : Call} {a b : CodeUnit} : c.joins a b = true ↔
    c.caller.qualified = a.qualified ∧ c.callee.qualified = b.qualified := by
  simp [Call.joins, CodeUnit.same_iff]

/-- The sum of the counts of all calls of a list from one unit to another. -/
def tally (calls : List Call) (a b : CodeUnit) : Int :=
  (calls.map fun c => if c.joins a b then c.count else 0).sum

@[simp] theorem tally_nil (a b : CodeUnit) : tally [] a b = 0 := rfl

@[simp] theorem tally_cons (c : Call) (calls : List Call) (a b : CodeUnit) :
    tally (c :: calls) a b = (if c.joins a b then c.count else 0) + tally calls a b := by
  simp [tally]

theorem tally_perm {calls calls' : List Call} (h : calls.Perm calls') (a b : CodeUnit) :
    tally calls a b = tally calls' a b :=
  (h.map _).sum_eq

/-- Tallies do not tell units apart that are the same. -/
theorem tally_congr (calls : List Call) {a a' b b' : CodeUnit} (ha : a.same a' = true)
    (hb : b.same b' = true) : tally calls a b = tally calls a' b' := by
  rw [CodeUnit.same_iff] at ha hb
  have hjoins : ∀ c : Call, c.joins a b = c.joins a' b' := by
    intro c
    simp [Call.joins, CodeUnit.same, ha, hb]
  simp [tally, hjoins]

/-- An entry for the same ordered pair joins the same units as a new call would. -/
theorem joins_of_joins {c : Call} {x y : CodeUnit} (h : c.joins x y = true) (a b : CodeUnit) :
    c.joins a b = (x.same a && y.same b) := by
  obtain ⟨hx, hy⟩ := joins_iff.1 h
  simp [Call.joins, CodeUnit.same, hx, hy]

/-- Recording a call adds to one tally. -/
theorem tally_record (x y : CodeUnit) (k : Int) (calls : List Call) (a b : CodeUnit) :
    tally (record x y k calls) a b =
      tally calls a b + if x.same a && y.same b then k else 0 := by
  induction calls with
  | nil => simp [record, Call.joins]
  | cons c calls ih =>
      rw [record]
      split
      · rename_i hjoins
        -- the entry grows in its place
        have hgrown : Call.joins { c with count := c.count + k } a b = c.joins a b := rfl
        rw [tally_cons, tally_cons, hgrown, joins_of_joins hjoins]
        split <;> ring
      · rw [tally_cons, tally_cons, ih]
        ring

/-- The count that is found for an ordered pair: that of its first entry. -/
def found (calls : List Call) (a b : CodeUnit) : Int :=
  ((calls.find? (·.joins a b)).map (·.count)).getD 0

theorem found_record (x y : CodeUnit) (k : Int) (calls : List Call) (a b : CodeUnit) :
    found (record x y k calls) a b = found calls a b + if x.same a && y.same b then k else 0 := by
  unfold found
  induction calls with
  | nil =>
      have hnew : Call.joins ⟨x, y, k⟩ a b = (x.same a && y.same b) := rfl
      rw [record, List.find?_cons, hnew]
      split <;> simp_all
  | cons c calls ih =>
      rw [record]
      split
      · rename_i hjoins
        have hgrown : Call.joins { c with count := c.count + k } a b = c.joins a b := rfl
        rw [List.find?_cons, List.find?_cons, hgrown, joins_of_joins hjoins]
        split <;> simp_all
      · rename_i hjoins
        rw [List.find?_cons, List.find?_cons]
        cases h : c.joins a b
        · exact ih
        · -- the first entry of the pair stays, so the new call is not one of this pair
          have hother : (x.same a && y.same b) = false := by
            rw [← Bool.not_eq_true, Bool.and_eq_true, CodeUnit.same_iff, CodeUnit.same_iff]
            rintro ⟨hx, hy⟩
            obtain ⟨hcx, hcy⟩ := joins_iff.1 h
            exact hjoins (joins_iff.2 ⟨hcx.trans hx.symm, hcy.trans hy.symm⟩)
          simp [hother]

/-- No count is greater than the sum of all. -/
theorem count_le_sum {calls : List Call} (hpos : ∀ c ∈ calls, 0 ≤ c.count) {c : Call}
    (hc : c ∈ calls) : c.count ≤ sumOf (calls.map (·.count)) := by
  rw [sumOf_eq_sum]
  exact List.single_le_sum (List.forall_mem_map.2 hpos) _ (List.mem_map_of_mem hc)

/-- The calls go from one listed unit to another one, and there is at least one. -/
structure IsEdge (units : List CodeUnit) (c : Call) : Prop where
  /-- The caller is listed. -/
  caller : c.caller ∈ units
  /-- The callee is listed. -/
  callee : c.callee ∈ units
  /-- The callee is not the caller. -/
  different : c.caller.same c.callee = false
  /-- There is at least one call. -/
  pos : 1 ≤ c.count

theorem isEdge_record {units : List CodeUnit} {x y : CodeUnit} {k : Int} {calls : List Call}
    (hcalls : ∀ c ∈ calls, c.IsEdge units) (hnew : IsEdge units ⟨x, y, k⟩) :
    ∀ c ∈ record x y k calls, c.IsEdge units := by
  induction calls with
  | nil =>
      intro c hc
      rw [List.mem_singleton.1 hc]
      exact hnew
  | cons d calls ih =>
      intro c hc
      rw [List.forall_mem_cons] at hcalls
      obtain ⟨hd, hcalls⟩ := hcalls
      rw [record] at hc
      split at hc
      · rcases List.mem_cons.1 hc with rfl | hc
        · have hpos := hd.pos
          have hk : 1 ≤ k := hnew.pos
          have hgrown : 1 ≤ d.count + k := by omega
          exact ⟨hd.caller, hd.callee, hd.different, hgrown⟩
        · exact hcalls c hc
      · rcases List.mem_cons.1 hc with rfl | hc
        · exact hd
        · exact ih hcalls c hc

theorem sum_record (x y : CodeUnit) (k : Int) (calls : List Call) :
    sumOf ((record x y k calls).map (·.count)) = sumOf (calls.map (·.count)) + k := by
  induction calls with
  | nil => simp [record, sumOf]
  | cons c calls ih =>
      rw [record]
      split
      · simp only [List.map_cons, sumOf]
        ring
      · simp only [List.map_cons, sumOf, ih]
        ring

end Call

namespace CallGraph

/-- The call graph over some units in which a list of calls was recorded, one after the other. -/
def ofHistory (units : List CodeUnit) (history : List Call) : CallGraph :=
  history.foldl (fun g c => g.addCall c.caller c.callee c.count) { units }

/-- The number of calls between two units in both directions. -/
def traffic (g : CallGraph) (a b : CodeUnit) : Int := g.callCount a b + g.callCount b a

theorem units_foldl_addCall (history : List Call) (g : CallGraph) :
    (history.foldl (fun g c => g.addCall c.caller c.callee c.count) g).units = g.units := by
  induction history generalizing g with
  | nil => rfl
  | cons c history ih =>
      rw [List.foldl_cons, ih, addCall]
      split <;> rfl

@[simp] theorem units_ofHistory (units : List CodeUnit) (history : List Call) :
    (ofHistory units history).units = units :=
  units_foldl_addCall history { units }

/-! ### Two different units -/

section

variable {a b : CodeUnit} (hab : a.same b = false)

include hab

/-- A call of a unit to itself is none between two different units. -/
theorem not_both_same {x y : CodeUnit} (hxy : x.same y = true) :
    (x.same a && y.same b) = false := by
  rw [← Bool.not_eq_true] at hab ⊢
  rw [CodeUnit.same_iff] at hab hxy
  rw [Bool.and_eq_true, CodeUnit.same_iff, CodeUnit.same_iff]
  rintro ⟨hx, hy⟩
  exact hab (hx.symm.trans (hxy.trans hy))

theorem tally_calls_addCall (g : CallGraph) (c : Call) :
    Call.tally (g.addCall c.caller c.callee c.count).calls a b =
      Call.tally g.calls a b + if c.joins a b then c.count else 0 := by
  rw [addCall, Call.joins]
  split
  · rename_i hself
    simp [not_both_same hab hself]
  · exact Call.tally_record c.caller c.callee c.count g.calls a b

theorem callCount_addCall (g : CallGraph) (c : Call) :
    (g.addCall c.caller c.callee c.count).callCount a b =
      g.callCount a b + if c.joins a b then c.count else 0 := by
  have hfound : ∀ g : CallGraph, g.callCount a b = Call.found g.calls a b := by
    intro g
    simp [callCount, hab, Call.found]
  rw [hfound, hfound, addCall, Call.joins]
  split
  · rename_i hself
    simp [not_both_same hab hself]
  · exact Call.found_record c.caller c.callee c.count g.calls a b

omit hab in
/-- What grows by the count of each call of a pair that is recorded grows by the tally. -/
theorem foldl_addCall_eq {f : CallGraph → Int}
    (hf : ∀ (g : CallGraph) (c : Call), f (g.addCall c.caller c.callee c.count) =
      f g + if c.joins a b then c.count else 0) (history : List Call) (g : CallGraph) :
    f (history.foldl (fun g c => g.addCall c.caller c.callee c.count) g) =
      f g + Call.tally history a b := by
  induction history generalizing g with
  | nil => simp
  | cons c history ih =>
      rw [List.foldl_cons, ih, hf, Call.tally_cons]
      ring

/-- The entries of a graph have the tallies of its history. -/
theorem tally_calls_ofHistory (units : List CodeUnit) (history : List Call) :
    Call.tally (ofHistory units history).calls a b = Call.tally history a b := by
  have h := foldl_addCall_eq (f := fun g => Call.tally g.calls a b)
    (tally_calls_addCall hab) history { units }
  simpa [ofHistory] using h

/-- The count of an ordered pair is the sum of all counts that were recorded for it. -/
theorem callCount_ofHistory (units : List CodeUnit) (history : List Call) :
    (ofHistory units history).callCount a b = Call.tally history a b := by
  have h := foldl_addCall_eq (f := fun g => g.callCount a b)
    (callCount_addCall hab) history { units }
  simpa [ofHistory, callCount] using h

/-- The traffic of two units is what was recorded in both directions. -/
theorem traffic_ofHistory (units : List CodeUnit) (history : List Call) :
    (ofHistory units history).traffic a b = Call.tally history a b + Call.tally history b a := by
  have hba : b.same a = false := by rwa [CodeUnit.same_comm]
  rw [traffic, callCount_ofHistory hab, callCount_ofHistory hba]

/-- The entries of a graph have its traffic. -/
theorem tally_calls_add (units : List CodeUnit) (history : List Call) :
    Call.tally (ofHistory units history).calls a b +
      Call.tally (ofHistory units history).calls b a = (ofHistory units history).traffic a b := by
  have hba : b.same a = false := by rwa [CodeUnit.same_comm]
  rw [traffic_ofHistory hab, tally_calls_ofHistory hab, tally_calls_ofHistory hba]

end

/-! ### All calls -/

theorem isEdge_addCall {units : List CodeUnit} {g : CallGraph} {d : Call}
    (hg : ∀ c ∈ g.calls, c.IsEdge units) (hcaller : d.caller ∈ units) (hcallee : d.callee ∈ units)
    (hpos : 1 ≤ d.count) : ∀ c ∈ (g.addCall d.caller d.callee d.count).calls, c.IsEdge units := by
  rw [addCall]
  split
  · exact hg
  · rename_i hself
    exact Call.isEdge_record hg ⟨hcaller, hcallee, Bool.eq_false_iff.2 hself, hpos⟩

/-- A history of calls between listed units makes edges. -/
theorem isEdge_ofHistory {units : List CodeUnit} {history : List Call}
    (h : ∀ c ∈ history, c.caller ∈ units ∧ c.callee ∈ units ∧ 1 ≤ c.count) :
    ∀ c ∈ (ofHistory units history).calls, c.IsEdge units := by
  have hfold : ∀ g : CallGraph, (∀ c ∈ g.calls, c.IsEdge units) →
      ∀ c ∈ (history.foldl (fun g c => g.addCall c.caller c.callee c.count) g).calls,
        c.IsEdge units := by
    induction history with
    | nil => exact fun g hg => hg
    | cons d history ih =>
        intro g hg
        rw [List.forall_mem_cons] at h
        exact ih h.2 _ (isEdge_addCall hg h.1.1 h.1.2.1 h.1.2.2)
  refine hfold { units } fun c hc => ?_
  cases hc

theorem total_addCall (g : CallGraph) (c : Call) :
    (g.addCall c.caller c.callee c.count).total =
      g.total + if c.caller.same c.callee then 0 else c.count := by
  rw [addCall]
  split
  · rw [add_zero]
  · exact Call.sum_record c.caller c.callee c.count g.calls

/-- The number of all calls is the sum of all counts that were recorded, but for calls of units to
themselves. -/
theorem total_ofHistory (units : List CodeUnit) (history : List Call) :
    (ofHistory units history).total =
      (history.map fun c => if c.caller.same c.callee then 0 else c.count).sum := by
  have hfold : ∀ g : CallGraph,
      (history.foldl (fun g c => g.addCall c.caller c.callee c.count) g).total =
        g.total + (history.map fun c => if c.caller.same c.callee then 0 else c.count).sum := by
    induction history with
    | nil => simp
    | cons c history ih =>
        intro g
        rw [List.foldl_cons, ih, total_addCall, List.map_cons, List.sum_cons, add_assoc]
  rw [ofHistory, hfold, total]
  simp [sumOf]

end CallGraph

end Cohesion
