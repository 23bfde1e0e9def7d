/-
The best pair is the first greatest one.

The grid of a list of slots has a place for each pair of places of the list.  The search walks
through it row by row, so among the places of the greatest entry it finds the one that comes first
by row and then by column.  In an ascending list of slots this is the first pair with the greatest
score, unless all scores are negative and the filler wins.

Main definitions:
* `IsFirstMaximum` — a value is the greatest of a list, and stands at its first place;
* `candidate` — the entry of the grid for two places of the list of slots;
* `IsFirstBest` — two slots are the first pair with the greatest score.

Main results:
* `firstMaximum_spec` — the search finds the first maximum;
* `candidateGrid_eq_ofFn` — the grid holds the candidates row by row;
* `bestPair_eq_some` — the best pair of a list of slots that is not empty;
* `exists_isFirstBest`, `bestPair_eq_filler` — the best pair with a score that is not negative, and
  without one.
-/
import Cohesion.Clustering.BestPair
import Mathlib.Data.List.OfFn
import Mathlib.Data.List.Sort
import Mathlib.Logic.Equiv.Fin.Basic

set_option autoImplicit false

namespace Cohesion

/-! ### The first maximum of a list -/

/-- The value `v` is the greatest of the list, and `place` is the first place where it stands. -/
structure IsFirstMaximum (l : List Int64) (place : Nat) (v : Int64) : Prop where
  /-- The value stands at the place. -/
  at_place : l[place]? = some v
  /-- No value of the list is greater. -/
  greatest : ∀ u ∈ l, u.toInt ≤ v.toInt
  /-- All values before the place are less. -/
  first : ∀ q u, q < place → l[q]? = some u → u.toInt < v.toInt

/-- The search keeps the first maximum of what it has passed. -/
theorem firstMaximumFrom_spec {done : List Int64} {place : Nat} {best : Int64}
    (h : IsFirstMaximum done place best) (rest : List Int64) :
    IsFirstMaximum (done ++ rest) (firstMaximumFrom place best done.length rest).1
      (firstMaximumFrom place best done.length rest).2 := by
  induction rest generalizing done place best with
  | nil => simpa [firstMaximumFrom] using h
  | cons v rest ih =>
      have hplace : place < done.length := by
        have hat := h.at_place
        rw [List.getElem?_eq_some_iff] at hat
        exact hat.1
      have happend : done ++ v :: rest = (done ++ [v]) ++ rest := by simp
      have hlength : done.length + 1 = (done ++ [v]).length := by simp
      rw [firstMaximumFrom, happend, hlength]
      -- a greater value takes the place of the best one, an equal value does not
      split
      · rename_i hlt
        rw [Int64.lt_iff_toInt_lt] at hlt
        refine ih ⟨by simp, fun u hu => ?_, fun q u hq hu => ?_⟩
        · rcases List.mem_append.1 hu with hu | hu
          · exact le_trans (h.greatest u hu) hlt.le
          · rw [List.mem_singleton.1 hu]
        · rw [List.getElem?_append_left hq] at hu
          exact lt_of_le_of_lt (h.greatest u (List.mem_of_getElem? hu)) hlt
      · rename_i hge
        rw [Int64.lt_iff_toInt_lt, not_lt] at hge
        refine ih ⟨?_, fun u hu => ?_, fun q u hq hu => ?_⟩
        · rw [List.getElem?_append_left hplace]
          exact h.at_place
        · rcases List.mem_append.1 hu with hu | hu
          · exact h.greatest u hu
          · rw [List.mem_singleton.1 hu]
            exact hge
        · rw [List.getElem?_append_left (hq.trans hplace)] at hu
          exact h.first q u hq hu

/-- The search finds the first maximum of a list that is not empty. -/
theorem firstMaximum_spec {l : List Int64} (h : l ≠ []) :
    ∃ place v, firstMaximum l = some (place, v) ∧ IsFirstMaximum l place v := by
  cases l with
  | nil => exact absurd rfl h
  | cons v rest =>
      have hone : IsFirstMaximum [v] 0 v :=
        ⟨rfl, fun u hu => by rw [List.mem_singleton.1 hu], fun q u hq _ => absurd hq (by omega)⟩
      exact ⟨_, _, rfl, firstMaximumFrom_spec hone rest⟩

/-! ### The grid -/

/-- Places that come first by row and then by column come first row by row. -/
theorem finProdFinEquiv_lt {k : Nat} {i j i' j' : Fin k} (h : i' < i ∨ i' = i ∧ j' < j) :
    (finProdFinEquiv (i', j')).val < (finProdFinEquiv (i, j)).val := by
  have hval : ∀ a b : Fin k, (finProdFinEquiv (a, b)).val = b.val + k * a.val :=
    fun a b => finProdFinEquiv_apply_val (a, b)
  rw [hval, hval]
  rcases h with hlt | ⟨rfl, hlt⟩
  · have hle := Nat.mul_le_mul_left k (Nat.succ_le_of_lt (Fin.lt_def.1 hlt))
    have hj := j'.isLt
    rw [Nat.mul_succ] at hle
    omega
  · exact Nat.add_lt_add_right (Fin.lt_def.1 hlt) _

section Grid

variable {n : Nat} (scores : Table n) (slots : List (Fin n))

/-- The entry of the grid for two places of the list of slots. -/
def candidate (i j : Fin slots.length) : Int64 :=
  if i < j then scores.get slots[i] slots[j] else -1

theorem candidateRow_eq_ofFn (i : Fin slots.length) :
    candidateRow scores slots i slots[i] = List.ofFn (candidate scores slots i) := by
  refine List.ext_getElem (by simp [candidateRow]) fun j h₁ h₂ => ?_
  simp [candidateRow, candidate, Fin.lt_def]

/-- The grid holds the candidates row by row. -/
theorem candidateGrid_eq_ofFn : candidateGrid scores slots =
    List.ofFn fun p : Fin (slots.length * slots.length) =>
      candidate scores slots (finProdFinEquiv.symm p).1 (finProdFinEquiv.symm p).2 := by
  have hrows : (slots.zipIdx.map fun p => candidateRow scores slots p.2 p.1) =
      List.ofFn fun i => List.ofFn (candidate scores slots i) := by
    refine List.ext_getElem (by simp) fun i h₁ h₂ => ?_
    have hi : i < slots.length := by simpa using h₁
    simpa using candidateRow_eq_ofFn scores slots ⟨i, hi⟩
  have hgrid : candidateGrid scores slots =
      (slots.zipIdx.map fun p => candidateRow scores slots p.2 p.1).flatten := List.flatMap_def
  rw [hgrid, hrows, List.ofFn_mul]
  congr 2
  funext i
  congr 1
  funext j
  have hp : (⟨i.val * slots.length + j.val, by
      have hle := Nat.mul_le_mul_right slots.length (Nat.succ_le_of_lt i.isLt)
      have hj := j.isLt
      rw [Nat.succ_mul] at hle
      omega⟩ : Fin (slots.length * slots.length)) = finProdFinEquiv (i, j) := by
    refine Fin.ext ((Nat.add_comm _ _).trans ?_)
    rw [finProdFinEquiv_apply_val, Nat.mul_comm]
  rw [hp, Equiv.symm_apply_apply]

theorem getElem?_candidateGrid (i j : Fin slots.length) :
    (candidateGrid scores slots)[(finProdFinEquiv (i, j)).val]? =
      some (candidate scores slots i j) := by
  rw [candidateGrid_eq_ofFn, List.getElem?_ofFn, dif_pos (finProdFinEquiv (i, j)).isLt, Fin.eta,
    Equiv.symm_apply_apply]

/-- The best pair of slots stands at the first place, row by row, of the greatest candidate. -/
theorem bestPair_eq_some (h : slots ≠ []) :
    ∃ i j : Fin slots.length,
      bestPair scores slots = some ⟨slots[i], slots[j], candidate scores slots i j⟩ ∧
      (∀ i' j', (candidate scores slots i' j').toInt ≤ (candidate scores slots i j).toInt) ∧
      ∀ i' j', i' < i ∨ i' = i ∧ j' < j →
        (candidate scores slots i' j').toInt < (candidate scores slots i j).toInt := by
  have hpos : 0 < slots.length := List.length_pos_iff.2 h
  have hgrid : candidateGrid scores slots ≠ [] := by
    rw [candidateGrid_eq_ofFn, ← List.length_pos_iff, List.length_ofFn]
    exact Nat.mul_pos hpos hpos
  obtain ⟨place, v, hmax, hspec⟩ := firstMaximum_spec hgrid
  have hplace : place < slots.length * slots.length := by
    have hat := hspec.at_place
    rw [List.getElem?_eq_some_iff] at hat
    simpa [candidateGrid_eq_ofFn] using hat.1
  obtain ⟨⟨i, j⟩, hij⟩ := finProdFinEquiv.surjective ⟨place, hplace⟩
  have hval : place = (finProdFinEquiv (i, j)).val := by rw [hij]
  have hv : candidate scores slots i j = v := by
    have hat := hspec.at_place
    rw [hval, getElem?_candidateGrid] at hat
    exact Option.some.inj hat
  have hsum : place = j.val + slots.length * i.val := by
    rw [hval]
    exact finProdFinEquiv_apply_val (i, j)
  refine ⟨i, j, ?_, fun i' j' => ?_, fun i' j' hlex => ?_⟩
  · have hrow : place / slots.length = i.val := by
      rw [hsum, Nat.add_mul_div_left _ _ hpos, Nat.div_eq_of_lt j.isLt, Nat.zero_add]
    have hcolumn : place % slots.length = j.val := by
      rw [hsum, Nat.add_mul_mod_self_left, Nat.mod_eq_of_lt j.isLt]
    simp [bestPair, hmax, hrow, hcolumn, hv]
  · rw [hv]
    exact hspec.greatest _ (List.mem_of_getElem? (getElem?_candidateGrid scores slots i' j'))
  · rw [hv]
    refine hspec.first _ _ ?_ (getElem?_candidateGrid scores slots i' j')
    rw [hval]
    exact finProdFinEquiv_lt hlex

/-- Only the first place of the grid holds no more than the filler and more than all places before
it, because the filler stands there. -/
theorem eq_zero_of_candidate_le {i j : Fin slots.length} (hle : candidate scores slots i j ≤ -1)
    (hfirst : ∀ i' j', i' < i ∨ i' = i ∧ j' < j →
      (candidate scores slots i' j').toInt < (candidate scores slots i j).toInt) :
    i.val = 0 ∧ j.val = 0 := by
  have hfiller : candidate scores slots ⟨0, i.pos⟩ ⟨0, i.pos⟩ = -1 := if_neg (lt_irrefl _)
  by_contra hlater
  have hless := hfirst ⟨0, i.pos⟩ ⟨0, i.pos⟩ (by simp only [Fin.lt_def, Fin.ext_iff]; omega)
  rw [hfiller, ← Int64.lt_iff_toInt_lt] at hless
  exact Int64.lt_irrefl (Int64.lt_of_lt_of_le hless hle)

end Grid

/-! ### The first pair with the greatest score -/

section Before

variable {α : Type} {l : List α}

/-- One entry stands before another one when it has a smaller place. -/
theorem pair_sublist_iff_get {a b : α} :
    [a, b].Sublist l ↔ ∃ i j : Fin l.length, i < j ∧ l.get i = a ∧ l.get j = b := by
  constructor
  · intro h
    by_contra hnone
    have hother : l.Pairwise fun c d => ¬(c = a ∧ d = b) :=
      List.pairwise_iff_get.2 fun i j hij heq => hnone ⟨i, j, hij, heq⟩
    exact List.pairwise_iff_forall_sublist.1 hother h ⟨rfl, rfl⟩
  · rintro ⟨i, j, hij, rfl, rfl⟩
    exact List.pairwise_iff_get.1 (List.pairwise_iff_forall_sublist.2 id) i j hij

/-- In an ascending list the smaller entries stand before the greater ones. -/
theorem pair_sublist_iff_lt {n : Nat} {slots : List (Fin n)} (h : slots.Pairwise (· < ·))
    {x y : Fin n} : [x, y].Sublist slots ↔ x ∈ slots ∧ y ∈ slots ∧ x < y := by
  constructor
  · intro hpair
    exact ⟨hpair.subset (by simp), hpair.subset (by simp),
      List.pairwise_iff_forall_sublist.1 h hpair⟩
  · rintro ⟨hx, hy, hlt⟩
    obtain ⟨i, rfl⟩ := List.get_of_mem hx
    obtain ⟨j, rfl⟩ := List.get_of_mem hy
    exact pair_sublist_iff_get.2 ⟨i, j, h.sortedLT.strictMono_get.lt_iff_lt.1 hlt, rfl, rfl⟩

end Before

section First

variable {n : Nat} {scores : Table n} {slots : List (Fin n)}

/-- Two slots are the first pair of a list with the greatest score: pairs are ordered by their first
slot, and pairs with the same first slot by their second one. -/
structure IsFirstBest (scores : Table n) (slots : List (Fin n)) (x y : Fin n) : Prop where
  /-- The first slot stands before the second one. -/
  pair : [x, y].Sublist slots
  /-- No other pair has a greater score. -/
  greatest : ∀ x' y', [x', y'].Sublist slots → scores.get x' y' ≤ scores.get x y
  /-- All earlier pairs have smaller scores. -/
  first : ∀ x' y', [x', y'].Sublist slots → x' < x ∨ x' = x ∧ y' < y →
    scores.get x' y' < scores.get x y

/-- Where some score is not negative, the best pair is the first one with the greatest score. -/
theorem exists_isFirstBest (hslots : slots.Pairwise (· < ·)) {a b : Fin n}
    (hpair : [a, b].Sublist slots) (hpos : 0 ≤ scores.get a b) :
    ∃ x y, IsFirstBest scores slots x y ∧
      bestPair scores slots = some ⟨x, y, scores.get x y⟩ := by
  have hmono : StrictMono slots.get := hslots.sortedLT.strictMono_get
  have hne : slots ≠ [] := List.ne_nil_of_mem (hpair.subset List.mem_cons_self)
  obtain ⟨i, j, hbest, hmax, hfirst⟩ := bestPair_eq_some scores slots hne
  have habove : ∀ i' j', i' < j' →
      candidate scores slots i' j' = scores.get (slots.get i') (slots.get j') :=
    fun i' j' hlt => if_pos hlt
  -- the filler is less than a score that is not negative, so it does not win
  have hij : i < j := by
    by_contra hge
    obtain ⟨i₀, j₀, hlt, rfl, rfl⟩ := pair_sublist_iff_get.1 hpair
    have hfiller := hmax i₀ j₀
    rw [habove i₀ j₀ hlt, candidate, if_neg hge, ← Int64.le_iff_toInt_le] at hfiller
    exact absurd (Int64.le_trans hpos hfiller) (by decide)
  rw [habove i j hij] at hbest
  refine ⟨slots.get i, slots.get j, ⟨?_, fun x' y' h => ?_, fun x' y' h hlex => ?_⟩, hbest⟩
  · exact pair_sublist_iff_get.2 ⟨i, j, hij, rfl, rfl⟩
  · obtain ⟨i', j', hlt, rfl, rfl⟩ := pair_sublist_iff_get.1 h
    have hle := hmax i' j'
    rwa [habove i' j' hlt, habove i j hij, ← Int64.le_iff_toInt_le] at hle
  · obtain ⟨i', j', hlt, rfl, rfl⟩ := pair_sublist_iff_get.1 h
    have hplaces : i' < i ∨ i' = i ∧ j' < j := by
      rwa [hmono.lt_iff_lt, hmono.injective.eq_iff, hmono.lt_iff_lt] at hlex
    have hless := hfirst i' j' hplaces
    rwa [habove i' j' hlt, habove i j hij, ← Int64.lt_iff_toInt_lt] at hless

/-- A negative word is at most the filler. -/
theorem le_neg_one_of_neg {v : Int64} (h : v < 0) : v ≤ -1 := by
  rw [Int64.lt_iff_toInt_lt] at h
  exact Int64.le_iff_toInt_le.2 (Int.le_sub_one_of_lt h)

/-- Where all scores are negative, the filler at the first place of the grid wins. -/
theorem bestPair_eq_filler (hne : slots ≠ [])
    (h : ∀ x y, [x, y].Sublist slots → scores.get x y < 0) :
    bestPair scores slots = some ⟨slots.head hne, slots.head hne, -1⟩ := by
  obtain ⟨i, j, hbest, -, hfirst⟩ := bestPair_eq_some scores slots hne
  have hle : candidate scores slots i j ≤ -1 := by
    rw [candidate]
    split
    · rename_i hij
      exact le_neg_one_of_neg (h _ _ (pair_sublist_iff_get.2 ⟨i, j, hij, rfl, rfl⟩))
    · exact Int64.le_refl _
  obtain ⟨hi, hj⟩ := eq_zero_of_candidate_le scores slots hle hfirst
  have hfiller : candidate scores slots i j = -1 := if_neg (by rw [Fin.lt_def]; omega)
  simp only [hbest, hfiller, Fin.getElem_fin, hi, hj, List.head_eq_getElem]

end First

end Cohesion
