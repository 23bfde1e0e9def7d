/-
Call graphs.

A call graph is a list of units and the calls recorded between them.  The calls between an ordered
pair of units are one entry, which keeps its place and its units from when the pair was first
recorded; later calls only add to its count.  A unit does not call itself.

Main definitions:
* `Call` — the calls from one unit to another;
* `CallGraph` — the graphs, `CallGraph.addCall` records a call;
* `CallGraph.callCount`, `CallGraph.total` — the counts.
-/
import Cohesion.CodeUnit
import Cohesion.Number.Sum

set_option autoImplicit false

namespace Cohesion

/-- The calls from one unit to another. -/
structure Call where
  /-- The calling unit. -/
  caller : CodeUnit
  /-- The called unit. -/
  callee : CodeUnit
  /-- The number of calls. -/
  count : Int
  deriving DecidableEq, Repr

/-- The call joins these two units, in this direction. -/
def Call.joins (c : Call) (caller callee : CodeUnit) : Bool :=
  c.caller.same caller && c.callee.same callee

/-- The calls with `count` more from one unit to another: added to their entry, or a new entry at
the end. -/
def Call.record (caller callee : CodeUnit) (count : Int) : List Call → List Call
  | [] => [⟨caller, callee, count⟩]
  | c :: rest =>
    if c.joins caller callee then { c with count := c.count + count } :: rest
    else c :: Call.record caller callee count rest

/-- A list of units and the calls between units. -/
structure CallGraph where
  /-- The units in their order. -/
  units : List CodeUnit
  /-- The recorded calls, one entry for each ordered pair, in the order of their first recording. -/
  calls : List Call := []
  deriving Repr, Inhabited

namespace CallGraph

/-- Records calls; calls of a unit to itself are left out. -/
def addCall (g : CallGraph) (caller callee : CodeUnit) (count : Int) : CallGraph :=
  if caller.same callee then g else { g with calls := Call.record caller callee count g.calls }

/-- The number of calls recorded from one unit to another. -/
def callCount (g : CallGraph) (caller callee : CodeUnit) : Int :=
  if caller.same callee then 0
  else ((g.calls.find? (·.joins caller callee)).map (·.count)).getD 0

/-- The number of all calls. -/
def total (g : CallGraph) : Int := sumOf (g.calls.map (·.count))

/-- A summary of the graph. -/
def summary (g : CallGraph) : String :=
  s!"CallGraph(units={g.units.length}, edges={g.calls.length})"

end CallGraph

end Cohesion
