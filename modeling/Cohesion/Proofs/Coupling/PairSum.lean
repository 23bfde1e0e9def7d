/-
Sums of a weight over pairs.

The calls between two clusters are a sum over all pairs of a member of the one and a member of the
other; the calls inside a cluster are a sum over its unordered pairs.  Both sums are taken over
lists here, and do not depend on their order.

Main definitions:
* `crossSum` — the sum over all pairs from two lists;
* `pairSum` — the sum over the unordered pairs of one list.

Main results:
* `crossSum_append_left`, `crossSum_append_right` — cross sums are additive in both lists;
* `crossSum_perm` — the order of the lists does not matter;
* `le_crossSum`, `exists_of_crossSum_pos` — single pairs of a sum;
* `pairSum_append` — the pairs of two lists are those of each and those across;
* `pairSum_le_of_subperm`, `crossSum_le_pairSum` — the pairs of a part, and those across two
  disjoint parts, are some of all pairs;
* `crossSum_self` — over all ordered pairs of one list, both directions and the diagonal are met.
-/
import Mathlib.Algebra.BigOperators.Fin
import Mathlib.Algebra.BigOperators.Group.List.Basic
import Mathlib.Algebra.Order.BigOperators.Group.List
import Mathlib.Data.List.Perm.Subperm
import Mathlib.Tactic.Ring

set_option autoImplicit false

namespace Cohesion

variable {α β : Type}

/-! ### Pairs across two lists -/

/-- The sum of a weight over all pairs of an element of one list and an element of another. -/
def crossSum (w : α → α → Int) (xs ys : List α) : Int :=
  (xs.map fun a => (ys.map (w a)).sum).sum

@[simp] theorem crossSum_nil_left (w : α → α → Int) (ys : List α) : crossSum w [] ys = 0 := rfl

theorem crossSum_cons_left (w : α → α → Int) (a : α) (xs ys : List α) :
    crossSum w (a :: xs) ys = (ys.map (w a)).sum + crossSum w xs ys := by
  simp [crossSum]

theorem crossSum_cons_right (w : α → α → Int) (b : α) (xs ys : List α) :
    crossSum w xs (b :: ys) = (xs.map fun a => w a b).sum + crossSum w xs ys := by
  simp [crossSum, List.sum_map_add]

theorem crossSum_append_left (w : α → α → Int) (xs xs' ys : List α) :
    crossSum w (xs ++ xs') ys = crossSum w xs ys + crossSum w xs' ys := by
  simp [crossSum]

theorem crossSum_append_right (w : α → α → Int) (xs ys ys' : List α) :
    crossSum w xs (ys ++ ys') = crossSum w xs ys + crossSum w xs ys' := by
  simp [crossSum, List.sum_map_add]

/-- Cross sums do not depend on the order of the lists. -/
theorem crossSum_perm (w : α → α → Int) {xs xs' ys ys' : List α} (hx : xs.Perm xs')
    (hy : ys.Perm ys') : crossSum w xs ys = crossSum w xs' ys' := by
  have hrow : (fun a => (ys.map (w a)).sum) = fun a => (ys'.map (w a)).sum :=
    funext fun a => (hy.map (w a)).sum_eq
  rw [crossSum, crossSum, hrow]
  exact (hx.map _).sum_eq

theorem crossSum_map (w : β → β → Int) (f : α → β) (xs ys : List α) :
    crossSum w (xs.map f) (ys.map f) = crossSum (fun a b => w (f a) (f b)) xs ys := by
  simp only [crossSum, List.map_map, Function.comp_def]

theorem crossSum_congr {w w' : α → α → Int} {xs ys : List α}
    (h : ∀ a ∈ xs, ∀ b ∈ ys, w a b = w' a b) : crossSum w xs ys = crossSum w' xs ys := by
  refine congrArg List.sum (List.map_congr_left fun a ha => ?_)
  exact congrArg List.sum (List.map_congr_left (h a ha))

theorem crossSum_mul_left (k : Int) (w : α → α → Int) (xs ys : List α) :
    crossSum (fun a b => k * w a b) xs ys = k * crossSum w xs ys := by
  simp only [crossSum, List.sum_map_mul_left]

/-- For a symmetric weight the two lists may change places. -/
theorem crossSum_comm {w : α → α → Int} (hw : ∀ a b, w a b = w b a) (xs ys : List α) :
    crossSum w xs ys = crossSum w ys xs := by
  induction xs with
  | nil => simp [crossSum]
  | cons a xs ih =>
      have hrow : (fun b => w b a) = w a := funext fun b => hw b a
      rw [crossSum_cons_left, crossSum_cons_right, ih, hrow]

theorem crossSum_nonneg {w : α → α → Int} (hw : ∀ a b, 0 ≤ w a b) (xs ys : List α) :
    0 ≤ crossSum w xs ys := by
  refine List.sum_nonneg fun n hn => ?_
  obtain ⟨a, _, rfl⟩ := List.mem_map.1 hn
  refine List.sum_nonneg fun n hn => ?_
  obtain ⟨b, _, rfl⟩ := List.mem_map.1 hn
  exact hw a b

/-- Each pair is at most the sum of all. -/
theorem le_crossSum {w : α → α → Int} (hw : ∀ a b, 0 ≤ w a b) {xs ys : List α} {a b : α}
    (ha : a ∈ xs) (hb : b ∈ ys) : w a b ≤ crossSum w xs ys := by
  have hrow : ∀ a, ∀ n ∈ ys.map (w a), 0 ≤ n := by
    intro a n hn
    obtain ⟨b, _, rfl⟩ := List.mem_map.1 hn
    exact hw a b
  have hrows : ∀ n ∈ xs.map fun a => (ys.map (w a)).sum, 0 ≤ n := by
    intro n hn
    obtain ⟨a, _, rfl⟩ := List.mem_map.1 hn
    exact List.sum_nonneg (hrow a)
  calc w a b ≤ (ys.map (w a)).sum := List.single_le_sum (hrow a) _ (List.mem_map_of_mem hb)
    _ ≤ crossSum w xs ys := List.single_le_sum hrows _ (List.mem_map_of_mem ha)

/-- A sum that is positive has a positive pair. -/
theorem exists_of_crossSum_pos {w : α → α → Int} {xs ys : List α} (h : 0 < crossSum w xs ys) :
    ∃ a ∈ xs, ∃ b ∈ ys, 0 < w a b := by
  have hzero : ∀ zs : List α, (zs.map fun _ => (0 : Int)).sum = 0 := by simp
  obtain ⟨a, ha, hrow⟩ := List.exists_lt_of_sum_lt (l := xs) (fun _ => 0)
    (fun a => (ys.map (w a)).sum) (by rwa [hzero])
  obtain ⟨b, hb, hab⟩ := List.exists_lt_of_sum_lt (l := ys) (fun _ => 0) (w a) (by rwa [hzero])
  exact ⟨a, ha, b, hb, hab⟩

/-! ### Pairs of one list -/

/-- The sum of a weight over the unordered pairs of a list. -/
def pairSum (w : α → α → Int) : List α → Int
  | [] => 0
  | a :: xs => (xs.map (w a)).sum + pairSum w xs

theorem pairSum_nonneg {w : α → α → Int} (hw : ∀ a b, 0 ≤ w a b) (xs : List α) :
    0 ≤ pairSum w xs := by
  induction xs with
  | nil => exact le_rfl
  | cons a xs ih =>
      have hrow : 0 ≤ (xs.map (w a)).sum := by
        refine List.sum_nonneg fun n hn => ?_
        obtain ⟨b, _, rfl⟩ := List.mem_map.1 hn
        exact hw a b
      rw [pairSum]
      omega

/-- The pairs of two lists are the pairs of each and the pairs across. -/
theorem pairSum_append (w : α → α → Int) (xs ys : List α) :
    pairSum w (xs ++ ys) = pairSum w xs + pairSum w ys + crossSum w xs ys := by
  induction xs with
  | nil => simp [pairSum]
  | cons a xs ih =>
      rw [List.cons_append, pairSum, pairSum, ih, crossSum_cons_left, List.map_append,
        List.sum_append]
      ring

/-- For a symmetric weight the sum over the pairs does not depend on the order of the list. -/
theorem pairSum_perm {w : α → α → Int} (hw : ∀ a b, w a b = w b a) {xs ys : List α}
    (h : xs.Perm ys) : pairSum w xs = pairSum w ys := by
  induction h with
  | nil => rfl
  | cons a h ih => rw [pairSum, pairSum, ih, (h.map (w a)).sum_eq]
  | swap a b xs =>
      simp only [pairSum, List.map_cons, List.sum_cons, hw b a]
      ring
  | trans _ _ ih₁ ih₂ => exact ih₁.trans ih₂

theorem pairSum_map (w : β → β → Int) (f : α → β) (xs : List α) :
    pairSum w (xs.map f) = pairSum (fun a b => w (f a) (f b)) xs := by
  induction xs with
  | nil => rfl
  | cons a xs ih => simp only [List.map_cons, pairSum, ih, List.map_map, Function.comp_def]

theorem pairSum_congr {w w' : α → α → Int} {xs : List α}
    (h : ∀ a ∈ xs, ∀ b ∈ xs, w a b = w' a b) : pairSum w xs = pairSum w' xs := by
  induction xs with
  | nil => rfl
  | cons a xs ih =>
      have hrow : xs.map (w a) = xs.map (w' a) := List.map_congr_left fun b hb =>
        h a List.mem_cons_self b (List.mem_cons_of_mem a hb)
      rw [pairSum, pairSum, hrow, ih]
      intro b hb c hc
      exact h b (List.mem_cons_of_mem a hb) c (List.mem_cons_of_mem a hc)

theorem pairSum_mul_left (k : Int) (w : α → α → Int) (xs : List α) :
    pairSum (fun a b => k * w a b) xs = k * pairSum w xs := by
  induction xs with
  | nil => simp [pairSum]
  | cons a xs ih => rw [pairSum, pairSum, ih, List.sum_map_mul_left, mul_add]

/-- The pairs of a part of a list are some of its pairs. -/
theorem pairSum_le_of_subperm {w : α → α → Int} (hw : ∀ a b, w a b = w b a)
    (hpos : ∀ a b, 0 ≤ w a b) {xs ys : List α} (h : xs.Subperm ys) :
    pairSum w xs ≤ pairSum w ys := by
  obtain ⟨part, hpart, hsub⟩ := h
  obtain ⟨rest, hrest⟩ := hsub.exists_perm_append
  have hall := pairSum_perm hw (hrest.trans (hpart.append_right rest))
  rw [pairSum_append] at hall
  have hr := pairSum_nonneg hpos rest
  have hc := crossSum_nonneg hpos xs rest
  omega

/-- The pairs across two disjoint parts of a list are some of its pairs. -/
theorem crossSum_le_pairSum {w : α → α → Int} (hw : ∀ a b, w a b = w b a)
    (hpos : ∀ a b, 0 ≤ w a b) {xs ys zs : List α} (h : (xs ++ ys).Subperm zs) :
    crossSum w xs ys ≤ pairSum w zs := by
  have hboth := pairSum_le_of_subperm hw hpos h
  rw [pairSum_append] at hboth
  have hx := pairSum_nonneg hpos xs
  have hy := pairSum_nonneg hpos ys
  omega

/-- The ordered pairs of a list are its unordered pairs in both directions, and the diagonal. -/
theorem crossSum_self (f : α → α → Int) (xs : List α) :
    crossSum f xs xs = pairSum (fun a b => f a b + f b a) xs + (xs.map fun a => f a a).sum := by
  induction xs with
  | nil => rfl
  | cons a xs ih =>
      rw [crossSum_cons_left, crossSum_cons_right, ih, pairSum, List.sum_map_add]
      simp only [List.map_cons, List.sum_cons]
      ring

/-! ### All pairs of positions -/

theorem crossSum_finRange {n : Nat} (f : Fin n → Fin n → Int) :
    crossSum f (List.finRange n) (List.finRange n) = ∑ i, ∑ j, f i j := by
  simp only [crossSum, Fin.sum_univ_def]

end Cohesion
