/-
The best pair by a double loop.

The search for the best pair lays out a whole grid and divides the place of its first greatest
entry.  A plain loop needs neither: it meets each slot with each later one, and keeps a pair when its
score is greater than all before, starting at −1.  Both find the same pair, whatever the signs of
the scores are and however often the greatest one occurs.  Only where all scores are negative does
the loop find nothing, and the grid the filler at its first place.

Main definitions:
* `RunningMaximum` — the greatest score so far, and the pair that has it;
* `RunningMaximum.search` — the double loop;
* `pairsOf` — the pairs of a list, in the order in which the loop meets them.

Main results:
* `RunningMaximum.visit_eq_foldl` — the loop goes over the pairs of the list;
* `RunningMaximum.search_eq` — it finds the first pair with the greatest score;
* `bestPair_eq_search` — **the best pair is the one that the double loop finds**.
-/
import Cohesion.Proofs.Clustering.BestPair

set_option autoImplicit false

namespace Cohesion

/-! ### The pairs of a list -/

section Pairs

variable {α : Type}

/-- The pairs of a list, each entry with each one after it. -/
def pairsOf : List α → List (α × α)
  | [] => []
  | x :: later => later.map (Prod.mk x) ++ pairsOf later

/-- A pair of a list is a sublist of two entries. -/
theorem mem_pairsOf {l : List α} {p : α × α} : p ∈ pairsOf l ↔ [p.1, p.2].Sublist l := by
  induction l with
  | nil => simp [pairsOf]
  | cons x later ih =>
      have hrow : p ∈ later.map (Prod.mk x) ↔ p.1 = x ∧ p.2 ∈ later := by
        rw [List.mem_map]
        constructor
        · rintro ⟨y, hy, rfl⟩
          exact ⟨rfl, hy⟩
        · rintro ⟨rfl, hy⟩
          exact ⟨p.2, hy, rfl⟩
      rw [pairsOf, List.mem_append, hrow, ih, List.cons_sublist_cons', List.singleton_sublist]
      exact or_comm

/-- The pairs of an ascending list ascend by their first and then by their second entry. -/
theorem pairsOf_sorted {n : Nat} {slots : List (Fin n)} (h : slots.Pairwise (· < ·)) :
    (pairsOf slots).Pairwise fun p q => p.1 < q.1 ∨ p.1 = q.1 ∧ p.2 < q.2 := by
  induction slots with
  | nil => exact .nil
  | cons x later ih =>
      obtain ⟨hfirst, hlater⟩ := List.pairwise_cons.1 h
      refine List.pairwise_append.2 ⟨?_, ih hlater, fun p hp q hq => ?_⟩
      · exact List.pairwise_map.2 (hlater.imp fun hlt => .inr ⟨rfl, hlt⟩)
      · obtain ⟨y, -, rfl⟩ := List.mem_map.1 hp
        exact .inl (hfirst _ ((mem_pairsOf.1 hq).subset List.mem_cons_self))

end Pairs

/-! ### The double loop -/

/-- What a search has found so far. -/
structure RunningMaximum (n : Nat) where
  /-- The first pair of slots with the greatest score, if one is above −1. -/
  pair? : Option (Fin n × Fin n)
  /-- The greatest score, or −1. -/
  score : Int64
  deriving DecidableEq, Repr

namespace RunningMaximum

variable {n : Nat}

/-- Nothing is found yet, and the first score that is not negative will be greater. -/
def start : RunningMaximum n := ⟨none, -1⟩

/-- A pair of slots is met: it is kept when its score is strictly greater. -/
def meet (scores : Table n) (r : RunningMaximum n) (p : Fin n × Fin n) : RunningMaximum n :=
  if r.score < scores.get p.1 p.2 then ⟨some p, scores.get p.1 p.2⟩ else r

/-- The double loop from some state: each slot meets each later one. -/
def visit (scores : Table n) (r : RunningMaximum n) : List (Fin n) → RunningMaximum n
  | [] => r
  | x :: later => visit scores (later.foldl (fun r y => r.meet scores (x, y)) r) later

/-- The double loop over a list of slots. -/
def search (scores : Table n) (slots : List (Fin n)) : RunningMaximum n := start.visit scores slots

variable {scores : Table n} {r : RunningMaximum n}

/-- The loop goes over the pairs of the list. -/
theorem visit_eq_foldl (slots : List (Fin n)) :
    r.visit scores slots = (pairsOf slots).foldl (meet scores) r := by
  induction slots generalizing r with
  | nil => rfl
  | cons x later ih => rw [visit, ih, pairsOf, List.foldl_append, List.foldl_map]

theorem meet_of_le {p : Fin n × Fin n} (h : scores.get p.1 p.2 ≤ r.score) :
    r.meet scores p = r :=
  if_neg (Int64.not_lt.2 h)

theorem meet_of_lt {p : Fin n × Fin n} (h : r.score < scores.get p.1 p.2) :
    r.meet scores p = ⟨some p, scores.get p.1 p.2⟩ :=
  if_pos h

/-- Pairs whose scores are not greater change nothing. -/
theorem foldl_meet_of_le {pairs : List (Fin n × Fin n)}
    (h : ∀ p ∈ pairs, scores.get p.1 p.2 ≤ r.score) : pairs.foldl (meet scores) r = r := by
  induction pairs with
  | nil => rfl
  | cons p pairs ih =>
      rw [List.forall_mem_cons] at h
      rw [List.foldl_cons, meet_of_le h.1, ih h.2]

/-- Below a bound on all scores the greatest one stays below it. -/
theorem score_foldl_meet_lt {pairs : List (Fin n × Fin n)} {bound : Int64}
    (hr : r.score < bound) (h : ∀ p ∈ pairs, scores.get p.1 p.2 < bound) :
    (pairs.foldl (meet scores) r).score < bound := by
  induction pairs generalizing r with
  | nil => exact hr
  | cons p pairs ih =>
      rw [List.forall_mem_cons] at h
      refine ih ?_ h.2
      rw [meet]
      split
      · exact h.1
      · exact hr

/-- The loop finds the first pair with the greatest score, if that is not negative. -/
theorem search_eq {slots : List (Fin n)} (hslots : slots.Pairwise (· < ·)) {x y : Fin n}
    (h : IsFirstBest scores slots x y) (hpos : 0 ≤ scores.get x y) :
    search scores slots = ⟨some (x, y), scores.get x y⟩ := by
  have hmem : (x, y) ∈ pairsOf slots := mem_pairsOf.2 h.pair
  have hsorted := pairsOf_sorted hslots
  obtain ⟨before, after, hsplit⟩ := List.append_of_mem hmem
  rw [hsplit] at hsorted
  have hpairs : ∀ p ∈ before ++ (x, y) :: after, [p.1, p.2].Sublist slots :=
    fun p hp => mem_pairsOf.1 (hsplit ▸ hp)
  have hbefore : ∀ p ∈ before, scores.get p.1 p.2 < scores.get x y := fun p hp =>
    h.first _ _ (hpairs p (List.mem_append_left _ hp))
      ((List.pairwise_append.1 hsorted).2.2 p hp (x, y) List.mem_cons_self)
  have hafter : ∀ p ∈ after, scores.get p.1 p.2 ≤ scores.get x y := fun p hp =>
    h.greatest _ _ (hpairs p (List.mem_append_right _ (List.mem_cons_of_mem _ hp)))
  have hstart : (start : RunningMaximum n).score < scores.get x y :=
    Int64.lt_of_lt_of_le (b := 0) (show (-1 : Int64) < 0 by decide) hpos
  -- before the pair all scores are less, so it is kept; after it none is greater
  have hkept := meet_of_lt (p := (x, y)) (score_foldl_meet_lt hstart hbefore)
  rw [search, visit_eq_foldl, hsplit, List.foldl_append, List.foldl_cons, hkept]
  exact foldl_meet_of_le hafter

/-- The loop finds nothing where all scores are negative. -/
theorem search_eq_start {slots : List (Fin n)}
    (h : ∀ x y, [x, y].Sublist slots → scores.get x y < 0) : search scores slots = start := by
  rw [search, visit_eq_foldl]
  exact foldl_meet_of_le fun p hp => le_neg_one_of_neg (h _ _ (mem_pairsOf.1 hp))

end RunningMaximum

/-! ### Both searches find the same pair -/

/-- **The best pair is the one that the double loop finds**: for every table of words and every
ascending list of slots, if the score of some slot against a later one is not negative, both
searches find the same pair, in order and with its score.  If all these scores are negative, the
loop finds nothing, and the best pair is the first slot twice with the filler −1. -/
theorem bestPair_eq_search {n : Nat} (scores : Table n) (slots : List (Fin n)) (hne : slots ≠ [])
    (hslots : slots.Pairwise (· < ·)) :
    ((∃ x y, [x, y].Sublist slots ∧ 0 ≤ scores.get x y) →
      ∃ x y, x < y ∧ [x, y].Sublist slots ∧
        RunningMaximum.search scores slots = ⟨some (x, y), scores.get x y⟩ ∧
        bestPair scores slots = some ⟨x, y, scores.get x y⟩) ∧
    ((∀ x y, [x, y].Sublist slots → scores.get x y < 0) →
      RunningMaximum.search scores slots = .start ∧
        bestPair scores slots = some ⟨slots.head hne, slots.head hne, -1⟩) := by
  constructor
  · rintro ⟨a, b, hpair, hpos⟩
    obtain ⟨x, y, hfirst, hbest⟩ := exists_isFirstBest hslots hpair hpos
    have hpos' : 0 ≤ scores.get x y := Int64.le_trans hpos (hfirst.greatest a b hpair)
    exact ⟨x, y, List.pairwise_iff_forall_sublist.1 hslots hfirst.pair, hfirst.pair,
      RunningMaximum.search_eq hslots hfirst hpos', hbest⟩
  · intro h
    exact ⟨RunningMaximum.search_eq_start h, bestPair_eq_filler hne h⟩

/-- Scores of four slots of which the third is out of use: of the others the first two have −5, and
both have `v` against the last one.  What the search must not look at is greater. -/
def Table.guarded (v : Int64) : Table 4 := .ofFn fun i j =>
  if i < j ∧ i ≠ 2 ∧ j ≠ 2 then if j = 1 then -5 else v else 9

/-- With twice the score 0 the first of the two pairs is found, with twice −1 none is. -/
theorem bestPair_eq_search_guarded :
    ([0, 1, 3] : List (Fin 4)) ≠ [] ∧ ([0, 1, 3] : List (Fin 4)).Pairwise (· < ·) ∧
      RunningMaximum.search (.guarded 0) [0, 1, 3] = ⟨some (0, 3), 0⟩ ∧
      bestPair (.guarded 0) [0, 1, 3] = some ⟨0, 3, 0⟩ ∧
      RunningMaximum.search (.guarded (-1)) [0, 1, 3] = .start ∧
      bestPair (.guarded (-1)) [0, 1, 3] = some ⟨0, 0, -1⟩ := by
  have hloop : RunningMaximum.search (.guarded 0) [0, 1, 3] = ⟨some (0, 3), 0⟩ := by
    decide +kernel
  obtain ⟨x, y, -, -, hsearch, hbest⟩ :=
    (bestPair_eq_search (.guarded 0) [0, 1, 3] (by decide) (by decide)).1
      ⟨0, 3, by decide, by decide +kernel⟩
  rw [hloop, RunningMaximum.mk.injEq, Option.some.injEq, Prod.mk.injEq] at hsearch
  obtain ⟨⟨rfl, rfl⟩, hscore⟩ := hsearch
  obtain ⟨hnone, hfiller⟩ :=
    (bestPair_eq_search (.guarded (-1)) [0, 1, 3] (by decide) (by decide)).2 (by decide +kernel)
  exact ⟨by decide, by decide, hloop, hscore ▸ hbest, hnone, hfiller⟩

end Cohesion
