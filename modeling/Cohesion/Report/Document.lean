/-
Reports as JSON documents.

The document has a member about the analysis as a whole and one member for each section.  Couplings
are rounded to six decimal places, and units have their qualified names.

Main definitions:
* `Report.document` — a report as a JSON value;
* `Report.fault?` — why a report cannot be written;
* `Report.render` — a report in any of the formats.
-/
import Cohesion.Json.Writer
import Cohesion.Report.Markdown

set_option autoImplicit false

namespace Cohesion

/-- A number rounded to six decimal places. -/
def Json.rounded (x : Binary64) : Json := .real (x.roundTo 6)

/-- A text or null. -/
def Json.optional : Option String → Json
  | none => .null
  | some s => .str s

/-- A value of the statistics. -/
def Statistics.Value.toJson : Statistics.Value → Json
  | .count n => .int n
  | .mean x => .real x
  | .names list => .arr (list.map .str)

/-- The statistics. -/
def Statistics.toJson (s : Statistics) : Json :=
  .obj (s.entries.map fun (name, value) => (name, value.toJson))

namespace Report

/-- A coupled pair. -/
def rowJson (row : CouplingRow) : Json :=
  .obj [("a", .str row.first.qualified), ("b", .str row.second.qualified),
    ("calls", .int row.calls), ("coupling", .rounded row.coupling)]

/-- A module. -/
def moduleJson (m : Module) : Json :=
  .obj [("index", .int m.number), ("units", .arr (m.units.map (.str ·.qualified))),
    ("cohesion", .rounded m.cohesion), ("merge_coupling", .rounded m.cluster.mergeCoupling)]

/-- A unit with its members. -/
def unitJson (u : CodeUnit) : Json :=
  .obj [("name", .str u.qualified), ("file", .optional (u.file.map (·.toString))),
    ("superclass", .optional u.superclass),
    ("fields", .arr (u.fields.map fun f => .obj [("name", .str f.name), ("type", .str f.type)])),
    ("methods", .arr (u.methods.map fun m =>
      .obj [("name", .str m.name), ("params", .int m.paramCount), ("lines", .int m.lineCount)]))]

/-- The member of a document for a section. -/
def sectionMember (r : Report) : Section → String × Json
  | .coupling => ("coupling", .arr (r.rows.map rowJson))
  | .modules =>
    ("modules", .obj [("insufficient_units", .bool r.cut.isInsufficient),
      ("warning", .optional r.cut.warning?), ("items", .arr (r.cut.modules.map moduleJson))])
  | .stats => ("stats", (Statistics.ofUnits r.units).toJson)
  | .tree => ("classes", .arr (r.units.map unitJson))
  | .calls =>
    ("method_calls", .obj (r.methodCalls.entries.map fun (caller, callees) =>
      (caller, .arr (callees.map .str))))

/-- What the report is about, and when it was made. -/
def metaJson (r : Report) (timestamp : String) : Json :=
  .obj [("path", .str r.path.toString), ("threshold", .real r.threshold),
    ("unit_count", .int r.units.length), ("total_calls", .int r.totalCalls),
    ("timestamp", .str timestamp)]

/-- The report as a JSON value. -/
def document (r : Report) (sections : List Section) (timestamp : String) : Json :=
  .obj (Json.ofMembers (("meta", r.metaJson timestamp) :: sections.map r.sectionMember))

end Report

/-! ### Reports that cannot be written -/

namespace Section

/-- The integers of units that a section shows in a format for readers. -/
def integers (units : List CodeUnit) (format : ReportFormat) : Section → List Int
  | stats => [(Statistics.ofUnits units).totalLines, (Statistics.ofUnits units).maxParams]
  | tree => units.flatMap fun u =>
    (if format = .markdown ∧ u.file.isSome then [u.startLine, u.endLine] else []) ++
      u.methods.flatMap fun m => [m.paramCount, m.lineCount]
  | _ => []

/-- The averages of a section are floating-point numbers. -/
def averagesFit (units : List CodeUnit) : Section → Bool
  | stats => (Statistics.ofUnits units).averagesFit
  | _ => true

/-- Why a section cannot be written in a format for readers. -/
def fault? (units : List CodeUnit) (format : ReportFormat) (s : Section) : Option ReportError :=
  if !s.averagesFit units then some .averageTooLarge
  else if !(s.integers units format).all isWritable then some .unwritableInteger
  else none

end Section

namespace Report

/-- Why the report cannot be written.  For readers one section is written after the other; a JSON
document is complete before it is written. -/
def fault? (r : Report) (format : ReportFormat) (sections : List Section) (timestamp : String) :
    Option ReportError :=
  match format with
  | .json =>
    if !sections.all (·.averagesFit r.units) then some .averageTooLarge
    else if !(r.document sections timestamp).integersFit then some .unwritableInteger
    else none
  | format => sections.findSome? (·.fault? r.units format)

/-- The report in a format. -/
def render (r : Report) (format : ReportFormat) (sections : List Section) (timestamp : String) :
    Except ReportError String :=
  match r.fault? format sections timestamp with
  | some e => .error e
  | none =>
    match format with
    | .text => .ok (r.plainText sections)
    | .markdown => .ok (r.markdown sections)
    | .json => .ok ((r.document sections timestamp).write (.indented 2))

end Report

end Cohesion
