/-
The best pair of a list of slots.

The scores of the slots against each other form a grid with a row and a column for each slot in
the list.  Only the part of the grid above its diagonal counts: the other places hold the filler
−1.  The best pair is the first greatest place of the grid, row by row.

Main definitions:
* `candidateGrid` — the grid, as one list of rows;
* `firstMaximum` — the place and the value of the first greatest entry of a list;
* `bestPair` — the slots and the score of the best pair.
-/
import Cohesion.Coupling.Table

set_option autoImplicit false

namespace Cohesion

/-- A score between two slots. -/
structure ScoredPair (n : Nat) where
  /-- The slot of the row. -/
  first : Fin n
  /-- The slot of the column. -/
  second : Fin n
  /-- The score. -/
  score : Int64
  deriving DecidableEq, Repr

/-- One row of the grid, for the slot at place `row` of the list. -/
def candidateRow {n : Nat} (scores : Table n) (slots : List (Fin n)) (row : Nat) (x : Fin n) :
    List Int64 :=
  slots.zipIdx.map fun (y, column) => if row < column then scores.get x y else -1

/-- The grid of the slots in a list, row by row. -/
def candidateGrid {n : Nat} (scores : Table n) (slots : List (Fin n)) : List Int64 :=
  slots.zipIdx.flatMap fun (x, row) => candidateRow scores slots row x

/-- The place and the value of the first greatest entry, where `best` at `place` is the first
greatest of the entries before `next`. -/
def firstMaximumFrom (place : Nat) (best : Int64) (next : Nat) : List Int64 → Nat × Int64
  | [] => (place, best)
  | v :: rest =>
    if best < v then firstMaximumFrom next v (next + 1) rest
    else firstMaximumFrom place best (next + 1) rest

/-- The place and the value of the first greatest entry of a list. -/
def firstMaximum : List Int64 → Option (Nat × Int64)
  | [] => none
  | v :: rest => some (firstMaximumFrom 0 v 1 rest)

/-- The slots of the first greatest place of the grid, with the entry there. -/
def bestPair {n : Nat} (scores : Table n) (slots : List (Fin n)) : Option (ScoredPair n) := do
  let (place, score) ← firstMaximum (candidateGrid scores slots)
  let first ← slots[place / slots.length]?
  let second ← slots[place % slots.length]?
  some ⟨first, second, score⟩

end Cohesion
