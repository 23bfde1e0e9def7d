/-
Requests to the program.

The instructions of the command line are followed in their order, so that the last one on a matter
counts; patterns are collected.  Telling the version or the usage comes before everything else, and
of two faults the threshold is refused before the path.

Main definitions:
* `Request` — what is to be analyzed and how it is shown;
* `Command`, `Command.ofArguments` — what the arguments ask for;
* `usageText`, `versionText` — the texts that can be asked for.
-/
import Cohesion.CommandLine.Arguments
import Cohesion.Number.Reading
import Cohesion.Report.Basic

set_option autoImplicit false

namespace Cohesion

/-- The threshold of modules unless something else is said: a tenth. -/
def defaultThreshold : Binary64 := .ofDecimal false 1 (-1)

/-- What is to be analyzed and how it is shown. -/
structure Request where
  /-- The path of a directory of sources or of a call document. -/
  path : String
  /-- The threshold of modules. -/
  threshold : Binary64 := defaultThreshold
  /-- The file that the report is written to. -/
  output : Option String := none
  /-- The report has the coupled pairs. -/
  coupling : Bool := true
  /-- The report has the modules. -/
  modules : Bool := true
  /-- The report has the statistics. -/
  stats : Bool := false
  /-- The report has the units and their members. -/
  tree : Bool := false
  /-- The report has the calls between methods. -/
  calls : Bool := false
  /-- Patterns of files to leave out. -/
  exclude : List String := []
  /-- Patterns of the only files to look at. -/
  focus : List String := []
  /-- The menu is opened. -/
  interactive : Bool := false
  /-- All log lines are shown. -/
  verbose : Bool := false
  /-- No progress is shown. -/
  quiet : Bool := false
  deriving Repr

namespace Request

/-- The request after an instruction; thresholds are read apart. -/
def follow (r : Request) : Instruction → Request
  | .output path => { r with output := some path }
  | .coupling shown => { r with coupling := shown }
  | .modules shown => { r with modules := shown }
  | .stats => { r with stats := true }
  | .tree => { r with tree := true }
  | .calls => { r with calls := true }
  | .exclude pattern => { r with exclude := r.exclude ++ [pattern] }
  | .focus pattern => { r with focus := r.focus ++ [pattern] }
  | .interactive => { r with interactive := true }
  | .verbose => { r with verbose := true }
  | .quiet => { r with quiet := true }
  | .threshold _ => r
  | .version => r
  | .help => r

/-- The report has a section. -/
def shows (r : Request) : Section → Bool
  | .coupling => r.coupling
  | .modules => r.modules
  | .stats => r.stats
  | .tree => r.tree
  | .calls => r.calls

/-- The sections of the report. -/
def sections (r : Request) : List Section := Section.all.filter r.shows

end Request

/-- What the arguments ask for. -/
inductive Command where
  /-- The version of the program. -/
  | showVersion
  /-- The usage of the program. -/
  | showUsage
  /-- An analysis. -/
  | analyze (r : Request)
  deriving Repr

namespace Command

/-- What an instruction asks for at once, whatever else is said. -/
def immediate? : Instruction → Option Command
  | .version => some showVersion
  | .help => some showUsage
  | _ => none

/-- The threshold in the last instruction on it. -/
def threshold (instructions : List Instruction) : Except UsageError Binary64 :=
  let written := instructions.reverse.findSome? fun
    | .threshold text => some text
    | _ => none
  match written with
  | none => .ok defaultThreshold
  | some text =>
    match readReal? text with
    | some x => .ok x
    | none => .error (.thresholdNotNumber text)

/-- What the arguments ask for, where `found` tells if there is something at a path. -/
def ofArguments (found : String → Bool) (a : Arguments) : Except UsageError Command :=
  match a.instructions.findSome? immediate? with
  | some command => .ok command
  | none => do
    let threshold ← threshold a.instructions
    match a.paths with
    | [] => .error .missingPath
    | path :: extra =>
      if !found path then .error (.pathNotFound path)
      else if !extra.isEmpty then .error (.extraArguments extra)
      else .ok (analyze (a.instructions.foldl Request.follow { path, threshold }))

end Command

/-- The version of the program. -/
def versionText : String := "cce, version 0.1.0\n"

/-- The line of an option in the usage. -/
def CommandOption.usage (o : CommandOption) : String :=
  let letter := (o.letter.map fun c => String.ofList ['-', c, ',', ' ']).getD "    "
  s!"  {letter}{o.name}  {o.summary}\n"

/-- The usage of the program. -/
def usageText : String :=
  UsageError.usageLine ++
    "\n  Identify modules in a codebase from the coupling between its classes.\n" ++
    "\n  PATH is a Java source directory, or a JSON call graph file.\n\nOptions:\n" ++
    String.join (CommandOption.all.map (·.usage))

end Cohesion
