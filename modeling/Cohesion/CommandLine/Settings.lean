/-
The settings of a run.

Threshold, verbosity, output and patterns can be given on the command line or in a configuration
file.  What a configuration file says is used where the command line says nothing or the default.

Main definitions:
* `Fault` — a failure that ends the program;
* `Settings.threshold`, `Settings.verbose`, `Settings.output`, `Settings.patterns` — the values that
  count;
* `Settings.format` — the format of the report, by the extension of the output.
-/
import Cohesion.CallGraph.Document
import Cohesion.CommandLine.Request
import Cohesion.Configuration
import Cohesion.Text.Lines

set_option autoImplicit false

namespace Cohesion

/-! ### Failures -/

/-- A failure that ends the program. -/
inductive Fault where
  /-- Something is looked up in a value that is no table. -/
  | notTable (value : Toml)
  /-- Something is searched in a value that holds nothing. -/
  | notContainer (value : Toml)
  /-- A text is asked for the value under a key. -/
  | keyOfText
  /-- A list is asked for the value under a key. -/
  | keyOfList
  /-- A value that stands for a path or a pattern is no text. -/
  | notPath (value : Toml)
  /-- An integer is too large for a floating-point number. -/
  | integerTooLarge
  /-- The configuration file cannot be read. -/
  | configuration (e : ConfigurationError)
  /-- The call document cannot be read. -/
  | document (e : LoadError)
  /-- The coupling matrix cannot hold the counts. -/
  | matrix (e : MatrixError)
  /-- There is no report. -/
  | report (e : ReportError)
  /-- The report cannot be written. -/
  | writing (e : WriteError)
  deriving Repr

/-- The wording of a failure. -/
def Fault.message : Fault → String
  | notTable value => s!"'{value.kindName}' object has no attribute 'get'"
  | notContainer value => s!"argument of type '{value.kindName}' is not iterable"
  | keyOfText => "string indices must be integers, not 'str'"
  | keyOfList => "list indices must be integers or slices, not str"
  | notPath value =>
    "expected str, bytes or os.PathLike object, not " ++ Text.afterLast '.' value.kindName
  | integerTooLarge => "int too large to convert to float"
  | configuration e => e.message
  | document e => e.message
  | matrix e => e.message
  | report e => e.message
  | writing e => e.message

/-! ### Settings -/

namespace Toml

/-- The value under a key, if there is one. -/
def member? (key : String) : Toml → Except Fault (Option Toml)
  | table members => .ok (members.lookup key)
  | value => .error (.notTable value)

/-- The value holds a text: as a key, as an item or as a part. -/
def holds (text : String) : Toml → Except Fault Bool
  | table members => .ok (members.lookup text).isSome
  | arr items => .ok (items.any fun
    | str s => s == text
    | _ => false)
  | str s => .ok (Text.isPartOf text.toList s.toList)
  | value => .error (.notContainer value)

/-- The value under a key that is held. -/
def item (key : String) : Toml → Except Fault Toml
  | table members => .ok ((members.lookup key).getD (table []))
  | arr _ => .error .keyOfList
  | str _ => .error .keyOfText
  | value => .error (.notContainer value)

end Toml

/-- Why the threshold of a configuration file is refused. -/
inductive ThresholdError where
  /-- It is no number and spells none. -/
  | notNumber (value : Toml)
  /-- It ends the program. -/
  | fault (f : Fault)
  deriving Repr

namespace Settings

/-- The number that a value stands for. -/
def numberOf : Toml → Except ThresholdError Binary64
  | .real x => .ok x
  | .bool b => .ok (.ofInt (if b then 1 else 0))
  | .int n =>
    let x := Binary64.ofInt n
    if x.isFinite then .ok x else .error (.fault .integerTooLarge)
  | .str s =>
    match readReal? s with
    | some x => .ok x
    | none => .error (.notNumber (.str s))
  | value => .error (.notNumber value)

/-- The threshold that is configured. -/
def configuredThreshold (configured : Toml) : Except ThresholdError (Option Binary64) :=
  match configured.member? "threshold" with
  | .error f => .error (.fault f)
  | .ok none => .ok none
  | .ok (some value) => (numberOf value).map some

/-- The threshold, where `given` is the one of the command line. -/
def threshold (given : Binary64) (configured : Toml) : Except ThresholdError Binary64 :=
  Configuration.prefer Binary64.eq given defaultThreshold (configuredThreshold configured)

/-- All log lines are shown, where `given` is what the command line says. -/
def verbose (given : Bool) (configured : Toml) : Except Fault Bool :=
  Configuration.prefer (· == ·) given false
    ((configured.member? "verbose").map (·.map (·.isTruthy)))

/-- The file that the report is written to, before it is known to be a text. -/
def output (given : Option String) (configured : Toml) : Except Fault (Option Toml) :=
  match given with
  | some path => .ok (some (.str path))
  | none => do
    if ← configured.holds "output" then .ok (some (← configured.item "output")) else .ok none

/-- Patterns of files, before they are known to be texts. -/
def patterns (key : String) (given : List String) (configured : Toml) : Except Fault (List Toml) :=
  if !given.isEmpty then .ok (given.map .str)
  else (configured.member? key).map fun
    | some (.arr items) => items
    | _ => []

/-- The path of the output, if there is one: what counts as no stands for none. -/
def outputPath : Option Toml → Except Fault (Option String)
  | none => .ok none
  | some (.str "") => .ok none
  | some (.str path) => .ok (some path)
  | some value => if value.isTruthy then .error (.notPath value) else .ok none

/-- The extensions of reports and their formats. -/
def formats : List (String × ReportFormat) :=
  [(".md", .markdown), (".json", .json), (".txt", .text)]

/-- The format of a report, by the extension of its file in any case. -/
def format? (path : String) : Option ReportFormat :=
  formats.lookup (Path.ofString path).lowerSuffix

/-- What is said about a file of no format. -/
def formatMessage (path : String) : String :=
  let extensions := ", ".intercalate (formats.map (·.1))
  s!"❌ Invalid output extension '{(Path.ofString path).lowerSuffix}'. Valid: {extensions}"

/-- The texts among patterns. -/
def texts (patterns : List Toml) : List String :=
  patterns.filterMap fun
    | .str s => some s
    | _ => none

end Settings

end Cohesion
