/-
The rankings of units.

A ranking is the front of the units sorted by descending size.  The sort keeps the order of units
of equal size, so where the cut goes through such units the earlier ones are kept; and its length
is the tenth of the number of units, which is computed with floating-point numbers but not off by
one.

Main definitions:
* `IsRanking` — some units are the largest tenth of a list of units.

Main results:
* `topCount_eq` — the length of a ranking;
* `sortedBy_sublist` — of two units of equal size the earlier one stays first;
* `isRanking_ranking` — a ranking is one;
* `Statistics.ofUnits_ranks` — **the rankings of the statistics, and the units in both**.
-/
import Cohesion.Proofs.CallGraph.History
import Cohesion.Proofs.Number.Tenth
import Cohesion.Report.Statistics
import Mathlib.Data.List.Permutation

set_option autoImplicit false

namespace Cohesion

/-- The length of a ranking is the tenth of the number of units, rounded up, and at least one. -/
theorem topCount_eq {n : Nat} (hn : n < 2 ^ 50) : topCount n = max 1 ⌈(n / 10 : ℚ)⌉₊ := by
  rw [topCount, Binary64.ceil?_mul_tenth hn]
  rfl

/-- Some units are the largest tenth of a list of units; `[u, v]` is a sublist of a list in which
`u` stands before `v`. -/
structure IsRanking (size : CodeUnit → Nat) (units top : List CodeUnit) : Prop where
  /-- A tenth of the units is kept, rounded up and at least one, if there are any. -/
  length_eq : top.length = min units.length (max 1 ⌈(units.length / 10 : ℚ)⌉₊)
  /-- What is kept are units of the list, each once. -/
  subperm : top.Subperm units
  /-- The larger ones come first. -/
  descending : top.Pairwise fun u v => size v ≤ size u
  /-- Every unit that is left out is at most as large as every unit that is kept. -/
  greatest : ∀ u ∈ units, u ∉ top → ∀ v ∈ top, size u ≤ size v
  /-- Of two units of equal size the earlier one is kept if the later one is. -/
  earlier_kept : ∀ u v, [u, v].Sublist units → size u = size v → v ∈ top → u ∈ top
  /-- Of two units of equal size that are kept the earlier one is listed first. -/
  earlier_first : ∀ u v, [u, v].Sublist units → size u = size v → v ∈ top → [u, v].Sublist top

section Sorted

variable (size : CodeUnit → Nat) (units : List CodeUnit)

theorem sortedBy_perm : (sortedBy size units).Perm units := List.mergeSort_perm _ _

theorem sortedBy_trans (a b c : CodeUnit) (hab : decide (size b ≤ size a) = true)
    (hbc : decide (size c ≤ size b) = true) : decide (size c ≤ size a) = true := by
  rw [decide_eq_true_iff] at *
  exact hbc.trans hab

theorem sortedBy_total (a b : CodeUnit) :
    (decide (size b ≤ size a) || decide (size a ≤ size b)) = true := by
  rw [Bool.or_eq_true, decide_eq_true_iff, decide_eq_true_iff]
  exact le_total _ _

theorem sortedBy_descending : (sortedBy size units).Pairwise fun u v => size v ≤ size u :=
  (List.pairwise_mergeSort (sortedBy_trans size) (sortedBy_total size) units).imp of_decide_eq_true

variable {size units}

/-- Of two units of equal size the earlier one stays first. -/
theorem sortedBy_sublist {u v : CodeUnit} (h : [u, v].Sublist units) (heq : size u = size v) :
    [u, v].Sublist (sortedBy size units) :=
  List.pair_sublist_mergeSort (sortedBy_trans size) (sortedBy_total size)
    (decide_eq_true heq.ge) h

end Sorted

/-- Of two members of a list without repetition, of which the later one is in a front part, both
are there in the same order. -/
theorem sublist_left_of_mem {α : Type} {u v : α} {front rest : List α}
    (hnodup : (front ++ rest).Nodup) (h : [u, v].Sublist (front ++ rest)) (hv : v ∈ front) :
    [u, v].Sublist front := by
  obtain ⟨l₁, l₂, heq, hl₁, hl₂⟩ := List.sublist_append_iff.1 h
  have hrest : v ∉ rest := fun hmem => (List.nodup_append'.1 hnodup).2.2 hv hmem
  -- if anything of the pair were in the rest, its second member would be
  have hnil : l₂ = [] := by
    by_contra hne
    have hlast : l₂.getLast hne = v := by
      have hpair := congrArg List.getLast? heq
      rw [List.getLast?_append_of_ne_nil _ hne, List.getLast?_eq_some_getLast hne] at hpair
      exact (Option.some.inj hpair).symm
    exact hrest (hlast ▸ hl₂.subset (List.getLast_mem hne))
  rw [hnil, List.append_nil] at heq
  exact heq ▸ hl₁

/-- **The ranking of units without repetition is the largest tenth of them.** -/
theorem isRanking_ranking (size : CodeUnit → Nat) {units : List CodeUnit} (hnodup : units.Nodup)
    (hn : units.length < 2 ^ 50) : IsRanking size units (ranking size units) := by
  have hperm := sortedBy_perm size units
  have hsplit : sortedBy size units =
      ranking size units ++ (sortedBy size units).drop (topCount units.length) :=
    (List.take_append_drop _ _).symm
  generalize (sortedBy size units).drop (topCount units.length) = rest at hsplit
  have hsorted : (ranking size units ++ rest).Nodup := hsplit ▸ hperm.nodup_iff.2 hnodup
  have hdescending := sortedBy_descending size units
  rw [hsplit, List.pairwise_append] at hdescending
  have hfirst : ∀ u v, [u, v].Sublist units → size u = size v → v ∈ ranking size units →
      [u, v].Sublist (ranking size units) := by
    intro u v h heq hv
    exact sublist_left_of_mem hsorted (hsplit ▸ sortedBy_sublist h heq) hv
  constructor
  case length_eq =>
    rw [ranking, List.length_take, hperm.length_eq, topCount_eq hn, min_comm]
  case subperm => exact (List.take_sublist _ _).subperm.trans hperm.subperm
  case descending => exact hdescending.1
  case greatest =>
    intro u hu hleft v hv
    have hmem : u ∈ ranking size units ++ rest := hsplit ▸ hperm.mem_iff.2 hu
    exact hdescending.2.2 v hv u ((List.mem_append.1 hmem).resolve_left hleft)
  case earlier_kept =>
    exact fun u v h heq hv => (hfirst u v h heq hv).subset List.mem_cons_self
  case earlier_first => exact hfirst

namespace Statistics

variable {units : List CodeUnit}

/-- Of units with different qualified names, a unit is in both rankings exactly when it is listed as
one of them. -/
theorem mem_inBoth_iff (hdistinct : units.Pairwise fun u v => u.same v = false)
    (htop : ∀ u ∈ (ofUnits units).topByMethods, u ∈ units)
    (htop' : ∀ u ∈ (ofUnits units).topByFields, u ∈ units) (u : CodeUnit) :
    u ∈ (ofUnits units).inBoth ↔
      u ∈ (ofUnits units).topByMethods ∧ u ∈ (ofUnits units).topByFields := by
  rw [inBoth, List.mem_filter, List.any_eq_true]
  refine and_congr_right fun hu => ⟨?_, fun hfields => ⟨u, hfields, CodeUnit.same_iff.2 rfl⟩⟩
  rintro ⟨v, hv, hsame⟩
  -- two units of the list that are the same are equal
  have heq : v = u := by
    by_contra hne
    have hsymm : Std.Symm fun a b : CodeUnit => a.same b = false :=
      ⟨fun a b h => by rw [CodeUnit.same_comm, h]⟩
    have hother := hdistinct.forall (htop' v hv) (htop u hu) hne
    rw [hsame] at hother
    cases hother
  exact heq ▸ hv

/-- **The rankings of the statistics are right**: for units with different qualified names, they are
the tenth with the most methods and the tenth with the most fields, and the units in both of them
are listed in the order of the first. -/
theorem ofUnits_ranks (hdistinct : units.Pairwise fun u v => u.same v = false)
    (hn : units.length < 2 ^ 50) :
    IsRanking (·.methods.length) units (ofUnits units).topByMethods ∧
      IsRanking (·.fields.length) units (ofUnits units).topByFields ∧
      (ofUnits units).inBoth.Sublist (ofUnits units).topByMethods ∧
      ∀ u, u ∈ (ofUnits units).inBoth ↔
        u ∈ (ofUnits units).topByMethods ∧ u ∈ (ofUnits units).topByFields := by
  have hnodup := CodeUnit.nodup_of_pairwise hdistinct
  have hmethods := isRanking_ranking (·.methods.length) hnodup hn
  have hfields := isRanking_ranking (·.fields.length) hnodup hn
  exact ⟨hmethods, hfields, List.filter_sublist,
    mem_inBoth_iff hdistinct (fun _ hu => hmethods.subperm.subset hu)
      fun _ hu => hfields.subperm.subset hu⟩

/-- Eleven units, of which the last two have one method each and the last three one field each; all
have the same simple name. -/
def crowd : List CodeUnit :=
  (List.range 11).map fun i =>
    { CodeUnit.qualifiedAs "A" (toString i) with
      methods := if 9 ≤ i then [⟨"f", 0, 0, 0, [], []⟩] else []
      fields := if 8 ≤ i then [⟨"x", "int"⟩] else [] }

theorem ranking_crowd (size : CodeUnit → Nat) :
    ranking size crowd = (sortedBy size crowd).take 2 := by
  have htop : topCount crowd.length = 2 := by decide +kernel
  rw [ranking, htop]

/-- Two of the eleven units are kept in each ranking, and one of them is in both. -/
theorem ofUnits_ranks_crowd : (crowd.Pairwise fun u v => u.same v = false) ∧
    crowd.length < 2 ^ 50 ∧
    ((ofUnits crowd).topByMethods.map (·.qualified) = ["9", "10"] ∧
      (ofUnits crowd).topByFields.map (·.qualified) = ["8", "9"] ∧
      (ofUnits crowd).inBoth.map (·.qualified) = ["9"]) ∧
    IsRanking (·.methods.length) crowd (ofUnits crowd).topByMethods ∧
      IsRanking (·.fields.length) crowd (ofUnits crowd).topByFields ∧
      (ofUnits crowd).inBoth.Sublist (ofUnits crowd).topByMethods ∧
      ∀ u, u ∈ (ofUnits crowd).inBoth ↔
        u ∈ (ofUnits crowd).topByMethods ∧ u ∈ (ofUnits crowd).topByFields := by
  have hdistinct : crowd.Pairwise fun u v => u.same v = false := by decide +kernel
  have hlength : crowd.length < 2 ^ 50 := by decide
  refine ⟨hdistinct, hlength, ?_, ofUnits_ranks hdistinct hlength⟩
  have hmethods : (ofUnits crowd).topByMethods = (sortedBy (·.methods.length) crowd).take 2 :=
    ranking_crowd _
  have hfields : (ofUnits crowd).topByFields = (sortedBy (·.fields.length) crowd).take 2 :=
    ranking_crowd _
  rw [inBoth, hmethods, hfields]
  exact ⟨by cbv, by cbv, by cbv⟩

end Statistics

end Cohesion
