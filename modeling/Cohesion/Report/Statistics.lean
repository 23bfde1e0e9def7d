/-
Statistics of a list of units.

Sums and averages over the units and their methods, and two rankings: the tenth of the units that
has the most methods, and the tenth that has the most fields.

Main definitions:
* `Statistics` — the numbers and the rankings, `Statistics.ofUnits` computes them;
* `topCount`, `ranking` — how many units a ranking has, and which;
* `Statistics.entries` — all of it as named values.
-/
import Cohesion.CodeUnit
import Cohesion.Number.Binary64
import Cohesion.Number.Sum

set_option autoImplicit false

namespace Cohesion

/-- Numbers and rankings of a list of units. -/
structure Statistics where
  /-- The number of units. -/
  classCount : Nat
  /-- The lines of all units. -/
  totalLines : Int
  /-- The number of methods. -/
  methodCount : Nat
  /-- The number of packages; units without a package have one in common. -/
  packageCount : Nat
  /-- Methods per unit. -/
  methodsPerClass : Binary64
  /-- Lines per method. -/
  linesPerMethod : Binary64
  /-- Fields per unit. -/
  fieldsPerClass : Binary64
  /-- The greatest number of parameters of a method. -/
  maxParams : Int
  /-- The units with the most methods. -/
  topByMethods : List CodeUnit
  /-- The units with the most fields. -/
  topByFields : List CodeUnit
  deriving Repr

/-- The tenth of a number of units, rounded up, and at least one. -/
def topCount (n : Nat) : Nat :=
  let tenth := (Binary64.ofInt n).mul (.ofDecimal false 1 (-1))
  max 1 (tenth.ceil?.getD 0).toNat

/-- The units by descending size, those of equal size in their order. -/
def sortedBy (size : CodeUnit → Nat) (units : List CodeUnit) : List CodeUnit :=
  units.mergeSort fun a b => size b ≤ size a

/-- The tenth of the units that is largest. -/
def ranking (size : CodeUnit → Nat) (units : List CodeUnit) : List CodeUnit :=
  (sortedBy size units).take (topCount units.length)

/-- A sum divided by a number of things, zero if there are none. -/
def average (sum : Int) (count : Nat) : Binary64 :=
  if count == 0 then .zero false else .ratio sum count

/-- The members of a list that do not occur earlier in it. -/
def distinct (names : List String) : List String :=
  names.foldl (fun seen name => if seen.contains name then seen else seen ++ [name]) []

/-- The greatest of a list of integers, zero for the empty list. -/
def greatest : List Int → Int
  | [] => 0
  | n :: rest => rest.foldl max n

namespace Statistics

/-- The statistics of a list of units. -/
def ofUnits (units : List CodeUnit) : Statistics :=
  let methods := units.flatMap (·.methods)
  { classCount := units.length
    totalLines := sumOf (units.map (·.lineCount))
    methodCount := methods.length
    packageCount := (distinct (units.map (·.package.getD ""))).length
    methodsPerClass := average methods.length units.length
    linesPerMethod := average (sumOf (methods.map (·.lineCount))) methods.length
    fieldsPerClass := average (sumOf (units.map fun u => (u.fields.length : Int))) units.length
    maxParams := greatest (methods.map (·.paramCount))
    topByMethods := ranking (·.methods.length) units
    topByFields := ranking (·.fields.length) units }

/-- All averages are floating-point numbers. -/
def averagesFit (s : Statistics) : Bool :=
  [s.methodsPerClass, s.linesPerMethod, s.fieldsPerClass].all (·.isFinite)

/-- The units in both rankings, in the order of the ranking by methods. -/
def inBoth (s : Statistics) : List CodeUnit :=
  s.topByMethods.filter fun u => s.topByFields.any (·.same u)

/-- A named value of the statistics. -/
inductive Value where
  /-- A number of things. -/
  | count (n : Int)
  /-- An average. -/
  | mean (x : Binary64)
  /-- The names of units. -/
  | names (list : List String)
  deriving Repr

/-- All of the statistics as named values. -/
def entries (s : Statistics) : List (String × Value) :=
  [("class_count", .count s.classCount),
   ("total_lines", .count s.totalLines),
   ("method_count", .count s.methodCount),
   ("package_count", .count s.packageCount),
   ("avg_methods_per_class", .mean s.methodsPerClass),
   ("avg_lines_per_method", .mean s.linesPerMethod),
   ("avg_fields_per_class", .mean s.fieldsPerClass),
   ("max_params", .count s.maxParams),
   ("top_by_methods", .names (s.topByMethods.map (·.name))),
   ("top_by_fields", .names (s.topByFields.map (·.name))),
   ("in_both", .names (s.inBoth.map (·.name)))]

end Statistics

end Cohesion
