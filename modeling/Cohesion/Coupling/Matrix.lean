/-
The coupling matrix of a call graph.

The matrix holds the calls between the units as words of 64 bits, their sums in both directions,
and the sum of all calls.  The coupling of two units is the share of all calls that run between
them, in either direction.

Main definitions:
* `MatrixError` — why calls give no matrix, with `MatrixError.message`;
* `CouplingMatrix` — the matrices, `CouplingMatrix.build` makes one;
* `CouplingMatrix.coupling`, `CouplingMatrix.pairs` — the coupling of two units, and all pairs;
* `CouplingMatrix.internalCalls` — the calls inside a list of positions;
* `CouplingMatrix.normalize` — a number of calls as a share of all calls.
-/
import Cohesion.CallGraph.Basic
import Cohesion.Coupling.Table
import Cohesion.Log
import Cohesion.Number.Notation

set_option autoImplicit false

namespace Cohesion

/-- Why calls give no matrix. -/
inductive MatrixError where
  /-- A unit is listed twice. -/
  | listedTwice (unit : CodeUnit)
  /-- One end of a call is not listed. -/
  | unknownUnit (call : Call) (unit : CodeUnit)
  /-- The count of a call is negative. -/
  | negativeCount (call : Call)
  /-- A unit calls itself. -/
  | selfCall (call : Call)
  /-- The count of a call does not fit into a word. -/
  | countTooLarge (call : Call)
  deriving Repr

/-- The wording of an error. -/
def MatrixError.message : MatrixError → String
  | .listedTwice unit => s!"Unit listed twice: {unit.qualified}"
  | .unknownUnit call unit =>
    s!"Call {call.caller.qualified} -> {call.callee.qualified} references unknown unit " ++
      unit.qualified
  | .negativeCount call =>
    if isWritable call.count then
      s!"Negative call count {call.count} for {call.caller.qualified} -> {call.callee.qualified}"
    else unwritableMessage
  | .selfCall call => s!"Self-call recorded for {call.caller.qualified}"
  | .countTooLarge _ => "Python int too large to convert to C long"

/-- The fault is in the call graph itself, not in a count that is beyond the limits of words or of
messages. -/
def MatrixError.isMalformed : MatrixError → Bool
  | .negativeCount call => isWritable call.count
  | .countTooLarge _ => false
  | _ => true

/-- The coupling matrix of a list of units. -/
structure CouplingMatrix where
  /-- The units in their order. -/
  units : Array CodeUnit
  /-- The calls from the row's unit to the column's unit. -/
  counts : Table units.size
  /-- The calls between two units in both directions. -/
  symmetric : Table units.size
  /-- The sum of all calls. -/
  total : Int64
  /-- Both directions are summed. -/
  symmetric_eq : symmetric = counts.addTranspose
  /-- All calls are summed. -/
  total_eq : total = counts.sum

/-- A pair of units and their coupling. -/
structure CoupledPair where
  /-- The earlier unit. -/
  first : CodeUnit
  /-- The later unit. -/
  second : CodeUnit
  /-- Their coupling. -/
  coupling : Binary64
  deriving Repr

/-- A position outside the matrix. -/
structure PositionError where
  /-- The position that was asked for. -/
  index : Int
  /-- The number of units. -/
  size : Nat
  deriving DecidableEq, Repr

/-- The wording of the error. -/
def PositionError.message (e : PositionError) : String :=
  s!"index {e.index} is out of bounds for axis 0 with size {e.size}"

namespace CouplingMatrix

/-- The first position of a unit in a list. -/
def position? (units : Array CodeUnit) (u : CodeUnit) : Option (Fin units.size) :=
  units.findFinIdx? (·.same u)

/-- The first unit of a list that is the same as an earlier one. -/
def firstRepeated? (seen : List CodeUnit) : List CodeUnit → Option CodeUnit
  | [] => none
  | u :: rest => if seen.any (·.same u) then some u else firstRepeated? (u :: seen) rest

/-- An entry of the matrix to be increased. -/
structure Increment (n : Nat) where
  /-- The row: the caller's position. -/
  row : Fin n
  /-- The column: the callee's position. -/
  column : Fin n
  /-- The number of calls. -/
  count : Int64

/-- What a call adds to the matrix; a call of a unit to itself that never happens adds nothing. -/
def increment? (units : Array CodeUnit) (call : Call) :
    Except MatrixError (Option (Increment units.size)) :=
  match position? units call.caller, position? units call.callee with
  | none, _ => .error (.unknownUnit call call.caller)
  | _, none => .error (.unknownUnit call call.callee)
  | some i, some j =>
    if call.count < 0 then .error (.negativeCount call)
    else if call.caller.same call.callee then
      if call.count == 0 then .ok none else .error (.selfCall call)
    else if Int64.maxValue.toInt < call.count then .error (.countTooLarge call)
    else .ok (some ⟨i, j, Int64.ofInt call.count⟩)

/-- The table of all increments. -/
def tableOf {n : Nat} (increments : List (Increment n)) : Table n :=
  increments.foldl (fun t i => t.addAt i.row i.column i.count) Table.zero

/-- The matrix of a table of counts. -/
def ofCounts (units : Array CodeUnit) (counts : Table units.size) : CouplingMatrix where
  units := units
  counts := counts
  symmetric := counts.addTranspose
  total := counts.sum
  symmetric_eq := rfl
  total_eq := rfl

/-- The matrix of units and calls: the first call that is wrong is reported. -/
def build (units : List CodeUnit) (calls : List Call) : Except MatrixError CouplingMatrix :=
  match firstRepeated? [] units with
  | some u => .error (.listedTwice u)
  | none => do
    let increments ← calls.mapM (increment? units.toArray)
    .ok (ofCounts units.toArray (tableOf (increments.filterMap id)))

/-- The matrix of a call graph. -/
def ofGraph (g : CallGraph) : Except MatrixError CouplingMatrix := build g.units g.calls

/-- The number of units. -/
def size (m : CouplingMatrix) : Nat := m.units.size

/-- The unit is listed. -/
def contains (m : CouplingMatrix) (u : CodeUnit) : Bool := (position? m.units u).isSome

/-- The calls from one unit to another, none for units that are not listed. -/
def calls (m : CouplingMatrix) (caller callee : CodeUnit) : Int64 :=
  match position? m.units caller, position? m.units callee with
  | some i, some j => m.counts.get i j
  | _, _ => 0

/-- A number of calls as a share of all calls. -/
def normalize (m : CouplingMatrix) (calls : Int) : Binary64 :=
  if m.total == 0 then .zero false else .ratio calls m.total.toInt

/-- The coupling of the units at two positions. -/
def couplingAt (m : CouplingMatrix) (i j : Fin m.units.size) : Binary64 :=
  if i = j then .zero false else m.normalize (m.symmetric.get i j).toInt

/-- The coupling of two units, zero for units that are not listed. -/
def coupling (m : CouplingMatrix) (a b : CodeUnit) : Binary64 :=
  match position? m.units a, position? m.units b with
  | some i, some j => m.couplingAt i j
  | _, _ => .zero false

/-- The calls in both directions between two positions, none outside the matrix. -/
def symmetricAt (m : CouplingMatrix) (i j : Int) : Int64 :=
  if h : 0 ≤ i ∧ i.toNat < m.units.size ∧ 0 ≤ j ∧ j.toNat < m.units.size then
    m.symmetric.get ⟨i.toNat, h.2.1⟩ ⟨j.toNat, h.2.2.2⟩
  else 0

/-- The calls in both directions between a position and each position of a list. -/
def callsWith (m : CouplingMatrix) (i : Int) (indices : List Int) : Int64 :=
  Table.sumWords (indices.map (m.symmetricAt i))

/-- The calls in both directions between the positions of a list, each pair once. -/
def internalCalls (m : CouplingMatrix) : List Int → Int64
  | [] => 0
  | i :: rest => m.callsWith i rest + m.internalCalls rest

/-- The calls in both directions between the positions of two lists. -/
def crossCalls (m : CouplingMatrix) (left right : List Int) : Int64 :=
  Table.sumWords (left.map fun i => m.callsWith i right)

/-- A position that may be counted from the end by a negative number. -/
def resolve (m : CouplingMatrix) (index : Int) : Except PositionError Int :=
  if 0 ≤ index && index < m.size then .ok index
  else if index < 0 && -(m.size : Int) ≤ index then .ok (index + m.size)
  else .error ⟨index, m.size⟩

/-- The calls inside a list of positions that may be counted from the end; fewer than two
positions have none between them and are not looked at. -/
def internalCalls? (m : CouplingMatrix) (indices : List Int) : Except PositionError Int64 :=
  if indices.length < 2 then .ok 0
  else return m.internalCalls (← indices.mapM m.resolve)

/-- The unit at a position. -/
def unitAt (m : CouplingMatrix) (i : Fin m.units.size) : CodeUnit := m.units[i]

/-- The positions of all pairs of units, the earlier one first, in order. -/
def positionPairs (n : Nat) : List (Fin n × Fin n) :=
  (List.finRange n).flatMap fun i => ((List.finRange n).filter (i < ·)).map (i, ·)

/-- The pairs of units with calls between them, in order. -/
def pairs (m : CouplingMatrix) : List CoupledPair :=
  if m.total == 0 then []
  else
    ((positionPairs m.units.size).filter fun (i, j) => m.symmetric.get i j != 0).map fun (i, j) =>
      ⟨m.unitAt i, m.unitAt j, m.couplingAt i j⟩

/-- All couplings, each from the nearest numbers to its calls and to all calls. -/
def couplings (m : CouplingMatrix) : List (List Binary64) :=
  (List.finRange m.units.size).map fun i => (List.finRange m.units.size).map fun j =>
    if m.total == 0 then .zero false
    else (Binary64.ofInt (m.symmetric.get i j).toInt).div (Binary64.ofInt m.total.toInt)

/-- The calls in both directions, row by row. -/
def symmetricRows (m : CouplingMatrix) : List (List Int64) :=
  (List.finRange m.units.size).map fun i => (List.finRange m.units.size).map (m.symmetric.get i)

/-- A summary of the matrix. -/
def summary (m : CouplingMatrix) : String :=
  s!"CouplingMatrix(units={m.size}, total_calls={m.total.toInt})"

/-- What is said about a matrix. -/
def log (m : CouplingMatrix) : List LogLine :=
  [⟨.info, "coupling", s!"Coupling matrix: {m.size} units, {m.total.toInt} inter-unit calls"⟩]

end CouplingMatrix

end Cohesion
