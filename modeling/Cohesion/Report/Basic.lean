/-
What a report is about.

A report shows sections of the analysis of a call graph, in an order that the reader chooses.

Main definitions:
* `Section`, `ReportFormat` — the sections and the formats, with the names by which they are chosen;
* `CouplingRow` — a pair of units with its calls and its coupling;
* `Report` — the data of a report, `Report.ofAnalysis` collects it;
* `ReportError` — why there is no report, with `ReportError.message`.
-/
import Cohesion.Analysis
import Cohesion.CallGraph.Methods
import Cohesion.Text.Quoted

set_option autoImplicit false

namespace Cohesion

/-- A section of a report. -/
inductive Section where
  /-- The coupled pairs. -/
  | coupling
  /-- The identified modules. -/
  | modules
  /-- The statistics. -/
  | stats
  /-- The units with their members. -/
  | tree
  /-- The calls between methods. -/
  | calls
  deriving DecidableEq, Repr

namespace Section

/-- The name of a section. -/
def name : Section → String
  | coupling => "coupling"
  | modules => "modules"
  | stats => "stats"
  | tree => "tree"
  | calls => "calls"

/-- All sections. -/
def all : List Section := [coupling, modules, stats, tree, calls]

/-- The section of a name. -/
def ofName? (name : String) : Option Section := all.find? (·.name == name)

end Section

/-- A format of reports. -/
inductive ReportFormat where
  /-- Plain text. -/
  | text
  /-- Markdown. -/
  | markdown
  /-- A JSON document. -/
  | json
  deriving DecidableEq, Repr

namespace ReportFormat

/-- The name of a format. -/
def name : ReportFormat → String
  | text => "text"
  | markdown => "markdown"
  | json => "json"

/-- All formats. -/
def all : List ReportFormat := [text, markdown, json]

/-- The format of a name. -/
def ofName? (name : String) : Option ReportFormat := all.find? (·.name == name)

end ReportFormat

/-- Why there is no report. -/
inductive ReportError where
  /-- There is no such format. -/
  | unknownFormat (name : String)
  /-- There are no such sections. -/
  | unknownSections (names : List String)
  /-- An average is too large for a floating-point number. -/
  | averageTooLarge
  /-- An integer has too many digits to be written. -/
  | unwritableInteger
  deriving DecidableEq, Repr

/-- The names in ascending order, each once. -/
def sortedDistinct : List String → List String
  | [] => []
  | name :: rest =>
    let others := sortedDistinct rest
    if others.contains name then others
    else others.takeWhile (· < name) ++ name :: others.dropWhile (· < name)

/-- The wording of an error. -/
def ReportError.message : ReportError → String
  | .unknownFormat name => Text.quoted name ++ " is not a valid OutputFormat"
  | .unknownSections names => "Unknown report sections: " ++ ", ".intercalate (sortedDistinct names)
  | .averageTooLarge => "integer division result too large for a float"
  | .unwritableInteger => unwritableMessage

/-- A pair of units with calls between them. -/
structure CouplingRow where
  /-- The earlier unit. -/
  first : CodeUnit
  /-- The later unit. -/
  second : CodeUnit
  /-- The calls in both directions. -/
  calls : Int
  /-- The coupling. -/
  coupling : Binary64
  deriving Repr

/-- The data of a report. -/
structure Report where
  /-- The path that was analyzed. -/
  path : Path
  /-- The threshold. -/
  threshold : Binary64
  /-- The units. -/
  units : List CodeUnit
  /-- The number of all calls. -/
  totalCalls : Int
  /-- The coupled pairs. -/
  rows : List CouplingRow
  /-- The modules at the threshold. -/
  cut : Cut
  /-- The calls between methods. -/
  methodCalls : MethodCalls
  deriving Repr

namespace Report

/-- The coupled pairs of a matrix, with their calls. -/
def couplingRows (m : CouplingMatrix) : List CouplingRow :=
  m.pairs.map fun p =>
    ⟨p.first, p.second, (m.calls p.first p.second).toInt + (m.calls p.second p.first).toInt,
      p.coupling⟩

/-- The data of a report on an analysis. -/
def ofAnalysis (a : Analysis) (path : Path) (threshold : Binary64) (methodCalls : MethodCalls) :
    Report where
  path := path
  threshold := threshold
  units := a.matrix.units.toList
  totalCalls := a.matrix.total.toInt
  rows := couplingRows a.matrix
  cut := a.identify threshold
  methodCalls := methodCalls

/-- The sections of a list of names. -/
def sections (names : List String) : Except ReportError (List Section) :=
  match names.filter fun name => (Section.ofName? name).isNone with
  | [] => .ok (names.filterMap Section.ofName?)
  | unknown => .error (.unknownSections unknown)

end Report

end Cohesion
