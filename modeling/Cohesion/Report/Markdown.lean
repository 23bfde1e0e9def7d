/-
Reports in Markdown.

Every section has a heading of its own; coupled pairs and statistics are tables, names stand in
code spans.

Main definitions:
* `Report.markdown` — a report.
-/
import Cohesion.Report.PlainText

set_option autoImplicit false

namespace Cohesion

/-- A text as a code span. -/
def codeSpan (text : String) : String := "\x60" ++ text ++ "\x60"

/-- A row of a table. -/
def tableRow (cells : List String) : String := "| " ++ " | ".intercalate cells ++ " |"

namespace Report

/-- The table of the coupled pairs. -/
def couplingTable (r : Report) : List String :=
  if r.totalCalls == 0 then ["No inter-class calls detected."]
  else
    ["| Class A | Class B | Calls | Coupling |", "|---------|---------|-------|----------|"] ++
      r.rows.map fun row =>
        tableRow [codeSpan row.first.name, codeSpan row.second.name, toString row.calls,
          fixed 4 row.coupling]

/-- The list of the modules. -/
def moduleItems (cut : Cut) : List String :=
  if cut.isInsufficient then ["Not enough classes to form modules."]
  else
    cut.modules.map (fun m =>
      s!"- **{m.label}** (cohesion {fixed 4 m.cohesion}): " ++
        ", ".intercalate (m.cluster.names.map codeSpan)) ++
    match cut.warning? with
    | none => []
    | some warning => ["", s!"> ⚠️ {warning}"]

/-- A value of the statistics in a table. -/
def statisticCell : Statistics.Value → String
  | .count n => toString n
  | .mean x => fixed 2 x
  | .names list =>
    let joined := ", ".intercalate list
    if joined == "" then "-" else joined

/-- A name with blanks for its underscores. -/
def spaced (name : String) : String := name.map fun c => if c == '_' then ' ' else c

/-- The table of the statistics. -/
def statisticsTable (s : Statistics) : List String :=
  ["| Metric | Value |", "|--------|-------|"] ++
    s.entries.map fun (name, value) => tableRow [spaced name, statisticCell value]

/-- One unit with its members. -/
def unitLines (u : CodeUnit) : List String :=
  [s!"### {codeSpan u.qualified}", "",
   "Extends: " ++ nameOr "none" u.superclass ++ " | " ++ codeSpan u.location, ""] ++
    u.fields.map (fun f => "- field " ++ codeSpan (f.type ++ " " ++ f.name)) ++
    u.methods.map (fun m =>
      s!"- method {codeSpan m.name} ({m.paramCount} params, {m.lineCount} lines)") ++ [""]

/-- One method and what it calls. -/
def methodItem (caller : String) (callees : List String) : String :=
  let joined := ", ".intercalate (callees.map codeSpan)
  s!"- {codeSpan caller} → " ++ if joined == "" then "nothing" else joined

/-- A section in Markdown. -/
def sectionMarkdown (r : Report) : Section → List String
  | .coupling => ["## Weighted Coupling Graph", ""] ++ r.couplingTable ++ [""]
  | .modules =>
    [s!"## Modules (threshold {fixed 4 r.cut.threshold})", ""] ++ moduleItems r.cut ++ [""]
  | .stats => ["## Statistics", ""] ++ statisticsTable (.ofUnits r.units) ++ [""]
  | .tree => ["## Classes", ""] ++ r.units.flatMap unitLines
  | .calls =>
    ["## Method Call Graph", ""] ++
      r.methodCalls.entries.map (fun (caller, callees) => methodItem caller callees) ++ [""]

/-- The report in Markdown. -/
def markdown (r : Report) (sections : List Section) : String :=
  joinLines <|
    ["# Coupling Analysis Report", "",
     s!"**Path:** {codeSpan r.path.toString}  ",
     s!"**Classes:** {r.units.length}  ",
     s!"**Inter-class Calls:** {r.totalCalls}", ""] ++ sections.flatMap r.sectionMarkdown

end Report

end Cohesion
