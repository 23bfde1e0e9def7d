/-
The calls of resolved invocations.

An invocation that is resolved is a call from the unit in which it stands to the unit that declares
the invoked method.  Whatever the receiver is and however superclasses are written, that unit is
one of the list: it was looked up there, or it is the calling unit itself.  So recording one call
for each invocation makes a call graph that is always accepted, and its numbers are numbers of
invocations.

Main definitions:
* `InvocationSite.call?` — the call that an invocation is;
* `CallGraph.CountsInvocations` — a call graph is accepted and counts resolved invocations.

Main results:
* `Resolver.mem_of_resolve?` — resolving leads to listed units only;
* `CallGraph.ofUnits_eq_ofHistory` — the call graph of units records the calls of their invocations;
* `CallGraph.countsInvocations_ofUnits` — **it is accepted and counts them**.
-/
import Cohesion.Proofs.Coupling.Acceptance
import Cohesion.Resolution.Basic

set_option autoImplicit false

namespace Cohesion

/-! ### Listed units -/

namespace Resolver

variable {r : Resolver} {u v : CodeUnit}

theorem mem_of_lookup? {name : Option String} (h : r.lookup? name u = some v) : v ∈ r.units := by
  cases name with
  | none => cases h
  | some name =>
      rw [lookup?] at h
      split at h
      · cases h
      · have hcandidate : v ∈ r.candidates name := by
          rcases Option.or_eq_some_iff.1 h with hfind | ⟨-, hhead⟩
          · exact List.mem_of_find?_eq_some hfind
          · exact List.mem_of_head? hhead
        exact (List.mem_filter.1 hcandidate).1

/-- Climbing from a unit leads to that unit and to listed ones. -/
theorem mem_of_climb {seen : List CodeUnit} {fuel : Nat} (h : v ∈ r.climb seen u fuel) :
    v = u ∨ v ∈ r.units := by
  induction fuel generalizing seen u with
  | zero => cases h
  | succ fuel ih =>
      rw [climb] at h
      split at h
      · cases h
      · rcases List.mem_cons.1 h with rfl | h
        · exact Or.inl rfl
        · split at h
          · cases h
          · rename_i p hp
            -- a parent is listed, so what follows it is listed as well
            rcases ih h with rfl | hv
            · exact Or.inr (mem_of_lookup? hp)
            · exact Or.inr hv

section

variable (hu : u ∈ r.units)

include hu

theorem mem_of_hierarchy (h : v ∈ r.hierarchy u) : v ∈ r.units := by
  rcases mem_of_climb h with rfl | hv
  · exact hu
  · exact hv

theorem mem_of_declaring? {method : String} (h : r.declaring? u method = some v) : v ∈ r.units :=
  mem_of_hierarchy hu (List.mem_of_find?_eq_some h)

/-- The search for a method starts at a listed unit, whatever the receiver is. -/
theorem mem_of_start? {m : Method} {receiver : Receiver} (h : r.start? u m receiver = some v) :
    v ∈ r.units := by
  cases receiver with
  | self =>
      cases h
      exact hu
  | parent => exact mem_of_lookup? h
  | ownField name => exact mem_of_lookup? h
  | simple name =>
      rw [start?] at h
      split at h <;> exact mem_of_lookup? h
  | qualified name =>
      rw [start?] at h
      exact mem_of_lookup? h
  | expression => cases h

/-- Invocations in listed units are resolved to listed units. -/
theorem mem_of_resolve? {m : Method} {i : Invocation} (h : r.resolve? u m i = some v) :
    v ∈ r.units := by
  obtain ⟨start, hstart, hv⟩ := Option.bind_eq_some_iff.1 h
  exact mem_of_declaring? (mem_of_start? hu hstart) hv

end

end Resolver

/-! ### Invocations as calls -/

theorem mem_invocationSites_iff {units : List CodeUnit} {site : InvocationSite} :
    site ∈ invocationSites units ↔ site.unit ∈ units ∧ site.method ∈ site.unit.methods ∧
      site.invocation ∈ site.method.invocations := by
  simp only [invocationSites, List.mem_flatMap, List.mem_map]
  constructor
  · rintro ⟨u, hu, m, hm, i, hi, rfl⟩
    exact ⟨hu, hm, hi⟩
  · rintro ⟨hu, hm, hi⟩
    exact ⟨_, hu, _, hm, _, hi, rfl⟩

theorem unit_of_mem_invocationSites {units : List CodeUnit} {site : InvocationSite}
    (h : site ∈ invocationSites units) : site.unit ∈ units :=
  (mem_invocationSites_iff.1 h).1

theorem invocationSites_append (units units' : List CodeUnit) :
    invocationSites (units ++ units') = invocationSites units ++ invocationSites units' :=
  List.flatMap_append

/-- The call that an invocation is, if it is resolved. -/
def InvocationSite.call? (r : Resolver) (site : InvocationSite) : Option Call :=
  (r.target? site).map fun target => ⟨site.unit, target, 1⟩

/-- The calls of invocations between two units are counted one by one. -/
theorem Call.tally_filterMap (r : Resolver) (sites : List InvocationSite) (a b : CodeUnit) :
    tally (sites.filterMap (InvocationSite.call? r)) a b =
      sites.countP fun site => site.unit.same a && (r.target? site).any (·.same b) := by
  induction sites with
  | nil => rfl
  | cons site sites ih =>
      rw [List.filterMap_cons, List.countP_cons, InvocationSite.call?]
      cases htarget : r.target? site with
      | none => simpa using ih
      | some target =>
          rw [Option.map_some, tally_cons, ih, Call.joins]
          simp only [Option.any_some]
          split <;> push_cast <;> ring

/-- Of all invocations those in the methods of one unit are the invocations of this unit. -/
theorem countP_invocationSites {units : List CodeUnit}
    (hunits : units.Pairwise fun u v => u.same v = false) {a : CodeUnit} (ha : a ∈ units)
    (p : InvocationSite → Bool) :
    (invocationSites units).countP (fun site => site.unit.same a && p site) =
      (invocationSites [a]).countP p := by
  obtain ⟨front, back, rfl⟩ := List.append_of_mem ha
  obtain ⟨-, hback, hfront⟩ := List.pairwise_append.1 hunits
  have hself : ∀ site ∈ invocationSites [a], site.unit.same a = true := by
    intro site hsite
    rw [List.mem_singleton.1 (unit_of_mem_invocationSites hsite)]
    exact CodeUnit.same_iff.2 rfl
  -- no other unit of the list is the same
  have hother : ∀ others : List CodeUnit, (∀ u ∈ others, u.same a = false) →
      (invocationSites others).countP (fun site => site.unit.same a && p site) = 0 := by
    intro others hothers
    refine List.countP_eq_zero.2 fun site hsite => ?_
    simp [hothers _ (unit_of_mem_invocationSites hsite)]
  have hbefore := hother front fun u hu => hfront u hu a List.mem_cons_self
  have hafter := hother back fun u hu => by
    rw [CodeUnit.same_comm]
    exact (List.pairwise_cons.1 hback).1 u hu
  rw [List.append_cons, invocationSites_append, invocationSites_append, List.countP_append,
    List.countP_append, hbefore, hafter, Nat.zero_add, Nat.add_zero]
  refine List.countP_congr fun site hsite => ?_
  simp [hself site hsite]

namespace CallGraph

/-- The call graph of units records the calls of their invocations. -/
theorem ofUnits_eq_ofHistory (units : List CodeUnit) : ofUnits units =
    ofHistory units ((invocationSites units).filterMap (InvocationSite.call? ⟨units⟩)) := by
  rw [ofUnits, ofHistory, List.foldl_filterMap]
  refine List.foldl_ext _ _ _ fun g site _ => ?_
  rw [InvocationSite.call?]
  cases (Resolver.mk units).target? site <;> rfl

theorem units_ofUnits (units : List CodeUnit) : (ofUnits units).units = units := by
  rw [ofUnits_eq_ofHistory, units_ofHistory]

/-- Invocations of listed units are calls between listed units. -/
theorem listed_of_mem_filterMap {units : List CodeUnit} {c : Call}
    (hc : c ∈ (invocationSites units).filterMap (InvocationSite.call? ⟨units⟩)) :
    c.caller ∈ units ∧ c.callee ∈ units ∧ 1 ≤ c.count := by
  obtain ⟨site, hsite, hcall⟩ := List.mem_filterMap.1 hc
  obtain ⟨target, htarget, rfl⟩ := Option.map_eq_some_iff.1 hcall
  have hunit := unit_of_mem_invocationSites hsite
  exact ⟨hunit, Resolver.mem_of_resolve? (r := ⟨units⟩) hunit htarget, le_rfl⟩

/-- The number of all calls is the number of invocations that lead to another unit. -/
theorem total_ofUnits (units : List CodeUnit) : (ofUnits units).total =
    (invocationSites units).countP fun site =>
      ((Resolver.mk units).target? site).any fun target => !site.unit.same target := by
  rw [ofUnits_eq_ofHistory, total_ofHistory]
  induction invocationSites units with
  | nil => rfl
  | cons site sites ih =>
      rw [List.filterMap_cons, List.countP_cons, InvocationSite.call?]
      cases htarget : (Resolver.mk units).target? site with
      | none => simpa using ih
      | some target =>
          rw [Option.map_some, List.map_cons, List.sum_cons, ih]
          simp only [Option.any_some]
          by_cases hself : site.unit.same target = true
          · simp [hself]
          · simp [hself, add_comm]

/-- A call graph over a list of units is accepted, and its numbers are numbers of resolved
invocations. -/
structure CountsInvocations (g : CallGraph) (units : List CodeUnit) : Prop where
  /-- It makes a coupling matrix. -/
  accepted : ∃ m, CouplingMatrix.ofGraph g = .ok m
  /-- Its entries join two different listed units, at least once. -/
  edges : ∀ c ∈ g.calls, c.IsEdge units
  /-- The calls from one unit to another one are the invocations in the methods of the one that are
  resolved to the other one. -/
  callCount : ∀ a ∈ units, ∀ b, a.same b = false → g.callCount a b =
    (invocationSites [a]).countP fun site => ((Resolver.mk units).target? site).any (·.same b)
  /-- All calls are the invocations that are resolved to another unit than the calling one. -/
  total : g.total = (invocationSites units).countP fun site =>
    ((Resolver.mk units).target? site).any fun target => !site.unit.same target

/-- **Call graphs of resolved invocations are accepted and count them**: the qualified names of the
units are different, and there are fewer than `2 ^ 63` invocations.  Nothing is asked of simple
names and of superclasses, which may be unknown or lead in circles. -/
theorem countsInvocations_ofUnits {units : List CodeUnit}
    (hunits : units.Pairwise fun u v => u.qualified ≠ v.qualified)
    (hcount : (invocationSites units).length < 2 ^ 63) :
    (ofUnits units).CountsInvocations units := by
  have hdifferent : units.Pairwise fun u v => u.same v = false :=
    hunits.imp fun huv => Bool.eq_false_iff.2 fun hsame => huv (CodeUnit.same_iff.1 hsame)
  have hedges : ∀ c ∈ (ofUnits units).calls, c.IsEdge units := by
    rw [ofUnits_eq_ofHistory]
    exact isEdge_ofHistory fun c hc => listed_of_mem_filterMap hc
  have htotal := total_ofUnits units
  constructor
  case accepted =>
    refine CouplingMatrix.exists_build_iff.2 ⟨?_, fun c hc => ?_⟩
    · rwa [units_ofUnits]
    · rw [units_ofUnits]
      have hedge := hedges c hc
      have hpos := hedge.pos
      have hle : c.count ≤ (ofUnits units).total :=
        Call.count_le_sum (fun d hd => zero_le_one.trans (hedges d hd).pos) hc
      have hsites := List.countP_le_length (l := invocationSites units) (p := fun site =>
        ((Resolver.mk units).target? site).any fun target => !site.unit.same target)
      exact ⟨⟨_, hedge.caller, CodeUnit.same_iff.2 rfl⟩, ⟨_, hedge.callee, CodeUnit.same_iff.2 rfl⟩,
        by omega, fun hself => absurd hself (by simp [hedge.different]), by omega⟩
  case edges => exact hedges
  case callCount =>
    intro a ha b hab
    rw [ofUnits_eq_ofHistory, callCount_ofHistory hab, Call.tally_filterMap,
      countP_invocationSites hdifferent ha]
  case total => exact htotal

/-- Three units, of which two have the same simple name, two are superclasses of each other, and one
has a superclass that is not listed. -/
def circle : List CodeUnit :=
  [{ name := "A", qualified := "p.A", package := some "p", superclass := some "B"
     methods := [{ name := "main", invocations := [{ method := "run" },
       { method := "run", receiver := some "super" }, { method := "stop" }] }] },
    { name := "B", qualified := "p.B", package := some "p", superclass := some "A"
      methods := [{ name := "run", invocations := [{ method := "run" }] }] },
    { name := "B", qualified := "q.B", superclass := some "Unknown" }]

/-- Two of the four invocations lead to another unit. -/
theorem countsInvocations_circle :
    (ofUnits circle).total = 2 ∧ (ofUnits circle).CountsInvocations circle := by
  have htotal : (ofUnits circle).total = 2 := by decide +kernel
  exact ⟨htotal, countsInvocations_ofUnits (by decide) (by decide)⟩

end CallGraph

end Cohesion
