/-
Square tables of 64-bit integers.

The entries are words: sums wrap around.  A table is given by a function of row and column, and
every operation is described by what it does to the entry at a row and a column.

Main definitions:
* `Table` — the tables of a size, made by `Table.ofFn` and read by `Table.get`;
* `Table.addAt`, `Table.clear` — one entry changed;
* `Table.addRow`, `Table.addColumn` — one row or column added to another one;
* `Table.sum` — the sum of all entries.
-/

set_option autoImplicit false

namespace Cohesion

/-- A square table of 64-bit integers. -/
structure Table (n : Nat) where
  /-- The rows. -/
  rows : Vector (Vector Int64 n) n

namespace Table

variable {n : Nat}

/-- The table of a function of row and column. -/
def ofFn (f : Fin n → Fin n → Int64) : Table n :=
  ⟨Vector.ofFn fun i => Vector.ofFn (f i)⟩

/-- The entry at a row and a column. -/
def get (t : Table n) (i j : Fin n) : Int64 := t.rows[i][j]

@[simp] theorem get_ofFn (f : Fin n → Fin n → Int64) (i j : Fin n) : (ofFn f).get i j = f i j := by
  simp [ofFn, get]

/-- The table of zeros. -/
def zero : Table n := ofFn fun _ _ => 0

/-- One entry increased. -/
def addAt (t : Table n) (i j : Fin n) (v : Int64) : Table n :=
  ⟨t.rows.set i (t.rows[i].set j (t.get i j + v))⟩

theorem get_addAt (t : Table n) (i j k l : Fin n) (v : Int64) :
    (t.addAt i j v).get k l = if k = i ∧ l = j then t.get k l + v else t.get k l := by
  by_cases hk : k = i
  · subst hk
    by_cases hl : l = j
    · subst hl
      simp [addAt, get]
    · have hne : j.val ≠ l.val := fun h => hl (Fin.ext h.symm)
      simp [addAt, get, hl, hne]
  · have hne : i.val ≠ k.val := fun h => hk (Fin.ext h.symm)
    simp [addAt, get, hk, hne]

/-- Each entry and the one across the diagonal, added. -/
def addTranspose (t : Table n) : Table n := ofFn fun i j => t.get i j + t.get j i

@[simp] theorem get_addTranspose (t : Table n) (i j : Fin n) :
    t.addTranspose.get i j = t.get i j + t.get j i := by
  simp [addTranspose]

/-- Row `source` added to row `target`. -/
def addRow (t : Table n) (target source : Fin n) : Table n :=
  ofFn fun i j => if i = target then t.get target j + t.get source j else t.get i j

@[simp] theorem get_addRow (t : Table n) (target source i j : Fin n) :
    (t.addRow target source).get i j =
      if i = target then t.get target j + t.get source j else t.get i j := by
  simp [addRow]

/-- Column `source` added to column `target`. -/
def addColumn (t : Table n) (target source : Fin n) : Table n :=
  ofFn fun i j => if j = target then t.get i target + t.get i source else t.get i j

@[simp] theorem get_addColumn (t : Table n) (target source i j : Fin n) :
    (t.addColumn target source).get i j =
      if j = target then t.get i target + t.get i source else t.get i j := by
  simp [addColumn]

/-- One entry set to zero. -/
def clear (t : Table n) (k l : Fin n) : Table n :=
  ofFn fun i j => if i = k ∧ j = l then 0 else t.get i j

@[simp] theorem get_clear (t : Table n) (k l i j : Fin n) :
    (t.clear k l).get i j = if i = k ∧ j = l then 0 else t.get i j := by
  simp [clear]

/-- The sum of words. -/
def sumWords (ws : List Int64) : Int64 := ws.foldl (· + ·) 0

/-- All entries, row by row. -/
def entries (t : Table n) : List Int64 :=
  (List.finRange n).flatMap fun i => (List.finRange n).map (t.get i)

/-- The sum of all entries. -/
def sum (t : Table n) : Int64 := sumWords t.entries

end Table

end Cohesion
