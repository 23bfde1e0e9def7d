/-
Reports as plain text.

Every section starts with a heading and a rule.  The sections can also be shown one at a time.

Main definitions:
* `couplingText`, `modulesText`, `statisticsText`, `classTreeText`, `methodCallsText` — the
  sections;
* `Report.plainText` — a report.
-/
import Cohesion.Report.Basic
import Cohesion.Report.Statistics

set_option autoImplicit false

namespace Cohesion

/-- Lines as one text, with line feeds between them. -/
def joinLines (lines : List String) : String := "\n".intercalate lines

/-- A horizontal rule. -/
def ruleLine : String := String.ofList (List.replicate 60 '━')

/-- The text of an optional name: the given word if it is missing or empty. -/
def nameOr (word : String) (name : Option String) : String :=
  match name with
  | none => word
  | some name => if name == "" then word else name

/-- The coupling of each pair in a list. -/
def couplingText (pairs : List CoupledPair) (totalCalls : Int) : String :=
  joinLines <| ["🔗 Weighted Coupling Graph", ruleLine] ++
    if totalCalls == 0 then ["No inter-class calls detected. Coupling is zero everywhere."]
    else
      s!"   Inter-class calls: {totalCalls}" ::
        pairs.map (fun p => s!"Coupling({p.first.name}, {p.second.name}) = {fixed 4 p.coupling}") ++
        [ruleLine]

/-- The modules of a cut, with a warning if there are too many. -/
def modulesText (cut : Cut) : String :=
  joinLines <|
    [s!"🧩 Module Identification | Threshold CP = {fixed 4 cut.threshold}", ruleLine] ++
    if cut.isInsufficient then ["Not enough classes to form modules."]
    else
      "Identified modules:" :: cut.modules.map (fun m => s!"  - {m.text}") ++
        cut.warning?.toList.map (fun w => s!"⚠️  Warning: {w}.") ++ [ruleLine]

/-- The names of units as a list of items. -/
def unitItems (units : List CodeUnit) : List String := units.map fun u => s!"  - {u.name}"

/-- The statistics. -/
def statisticsText (s : Statistics) : String :=
  joinLines <|
    ["📊 Statistics", ruleLine,
     s!"Classes: {s.classCount}",
     s!"Total lines of code: {s.totalLines}",
     s!"Methods: {s.methodCount}",
     s!"Packages: {s.packageCount}",
     s!"Average methods per class: {fixed 2 s.methodsPerClass}",
     s!"Average lines per method: {fixed 2 s.linesPerMethod}",
     s!"Average fields per class: {fixed 2 s.fieldsPerClass}",
     "",
     "Top 10% classes by methods:"] ++ unitItems s.topByMethods ++
    "Top 10% classes by fields:" :: unitItems s.topByFields ++
    "Classes in both categories:" :: unitItems s.inBoth ++
    [s!"Maximum parameters in a method: {s.maxParams}"]

/-- One unit with its superclass, fields and methods. -/
def classLines (u : CodeUnit) : List String :=
  let fields := u.fields.map fun f => s!"    - {f.type} {f.name}"
  let methods := u.methods.map fun m =>
    s!"    - {m.name}({m.paramCount} params, {m.lineCount} lines)"
  let package := nameOr "default" u.package
  let superclass := nameOr "none" u.superclass
  s!"Class: {u.name} (package: {package}, extends: {superclass})" ::
    (if fields.isEmpty then [] else "  Fields:" :: fields) ++
    (if methods.isEmpty then [] else "  Methods:" :: methods)

/-- The units with their members. -/
def classTreeText (units : List CodeUnit) : String :=
  joinLines <| ["🌳 Class Tree", ruleLine] ++ units.flatMap classLines

/-- The calls between methods. -/
def methodCallsText (calls : MethodCalls) : String :=
  joinLines <| ["📞 Method Call Graph", ruleLine] ++ calls.entries.flatMap fun (caller, callees) =>
    s!"Method: {caller}" ::
      if callees.isEmpty then ["  -> calls nothing"] else callees.map fun c => s!"  -> {c}"

namespace Report

/-- A section as plain text. -/
def sectionText (r : Report) : Section → String
  | .coupling =>
    couplingText (r.rows.map fun row => ⟨row.first, row.second, row.coupling⟩) r.totalCalls
  | .modules => modulesText r.cut
  | .stats => statisticsText (.ofUnits r.units)
  | .tree => classTreeText r.units
  | .calls => methodCallsText r.methodCalls

/-- The report as plain text. -/
def plainText (r : Report) (sections : List Section) : String :=
  joinLines <|
    [s!"🔍 Coupling analysis of {r.path}",
     s!"   Classes: {r.units.length} | Inter-class calls: {r.totalCalls}",
     ""] ++ sections.flatMap fun s => [r.sectionText s, ""]

end Report

end Cohesion
