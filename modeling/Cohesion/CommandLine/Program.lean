/-
The program.

A run looks at the arguments and at a tree of files, prints what it finds, and ends or leaves a
task: the menu, which needs answers, or a report to be written.  `Program.finish` does these tasks
within the tree and with answers that are known in advance.

Main definitions:
* `Console` — the output that a run prints to, and the tree of files;
* `Platform` — what a run gets from the libraries and the machine under it;
* `Task` — what a run leaves to be done;
* `Program.start` — a run up to its task;
* `Outcome`, `Program.finish` — a whole run.
-/
import Cohesion.CommandLine.Menu
import Cohesion.CommandLine.Transcript
import Cohesion.Indexing.Basic
import Cohesion.Progress
import Cohesion.Report.Document

set_option autoImplicit false

namespace Cohesion

/-- What a run works with. -/
structure Console where
  /-- The output is a terminal. -/
  terminal : Bool
  /-- The time that a report tells. -/
  timestamp : String
  /-- The files. -/
  files : FileTree

/-- What a run gets from the libraries and the machine under it. -/
structure Platform where
  /-- What takes sources apart. -/
  extract : Extractor := Language.extract
  /-- The most containers of a call document that may be nested. -/
  depth : Nat := Json.depthLimit
  /-- How deeply the values of a configuration file may be nested. -/
  nesting : Toml.Nesting := {}

/-- What a run leaves to be done. -/
inductive Task where
  /-- Nothing. -/
  | nothing
  /-- Answers to the menu. -/
  | menu (m : Menu) (verbose : Bool)
  /-- A report to be written to a path. -/
  | report (path text : String)

/-- The options of a run after the configuration file is taken into account. -/
structure RunOptions where
  /-- What the command line asks for. -/
  request : Request
  /-- The analyzed path, from the root of the tree. -/
  root : Path
  /-- The threshold. -/
  threshold : Binary64
  /-- All log lines are shown. -/
  verbose : Bool
  /-- The file of the report and its format. -/
  output : Option (String × ReportFormat)
  /-- Patterns of files to leave out. -/
  exclude : List Toml
  /-- Patterns of the only files to look at. -/
  focus : List Toml

namespace Program

open Transcript

/-! ### Options -/

/-- The number in a threshold, or the end of the run. -/
def settleThreshold (c : Console) : Except ThresholdError Binary64 → Transcript Binary64
  | .ok x => pure x
  | .error (.fault f) => stop (.fault f)
  | .error (.notNumber value) => fail c.terminal s!"❌ Invalid threshold in config: {value.literal}"

/-- The file of the report with its format, or the end of the run. -/
def settleOutput (c : Console) (output : Option Toml) :
    Transcript (Option (String × ReportFormat)) := do
  match ← ofExcept (Settings.outputPath output) with
  | none => pure none
  | some path =>
    match Settings.format? path with
    | some format => pure (some (path, format))
    | none => fail c.terminal (Settings.formatMessage path)

/-- The options of a request. -/
def settle (p : Platform) (c : Console) (r : Request) : Transcript RunOptions := do
  let root := c.files.resolve (.ofString r.path)
  let configuration ← ofExcept ((Configuration.load c.files root p.nesting).mapError .configuration)
  match configuration.warning? with
  | some warning => emit (.message (warning ++ "\n"))
  | none => pure ()
  let configured := configuration.value
  let threshold ← settleThreshold c (Settings.threshold r.threshold configured)
  let verbose ← ofExcept (Settings.verbose r.verbose configured)
  let output ← ofExcept (Settings.output r.output configured)
  let exclude ← ofExcept (Settings.patterns "exclude" r.exclude configured)
  let focus ← ofExcept (Settings.patterns "focus" r.focus configured)
  let output ← settleOutput c output
  pure { request := r, root, threshold, verbose, output, exclude, focus }

/-! ### Analysis -/

/-- The end of a run whose analysis failed. -/
def failAnalysis {α : Type} (c : Console) (message : String) : Transcript α :=
  fail c.terminal s!"❌ Analysis failed: {message}"

/-- The first pattern that is no text, unless a pattern before it accepts. -/
def reachedNonText? (accepts : String → Bool) : List Toml → Option Toml
  | [] => none
  | .str pattern :: rest => if accepts pattern then none else reachedNonText? accepts rest
  | value :: _ => some value

/-- The first pattern that is no text among those that a file is compared with. -/
def nonTextFor? (o : RunOptions) (file : Path) : Option Toml :=
  let excludedBy (pattern : String) :=
    SourceFilter.anyAccepts [pattern] [file.toString, (o.root.join file).toString]
  let focusedBy (pattern : String) := SourceFilter.anyAccepts [pattern] [file.toString, file.name]
  let exclude := defaultExcludes.map .str ++ o.exclude
  match reachedNonText? excludedBy exclude with
  | some value => some value
  | none =>
    if (Settings.texts exclude).any excludedBy then none else reachedNonText? focusedBy o.focus

/-- The first pattern that is no text among those that the files of a language are compared
with. -/
def nonText? (c : Console) (o : RunOptions) (l : Language) : Option Toml :=
  let files := SourceFilter.inOrder (c.files.filesBelow o.root)
  (files.filter (l.extensions.contains ·.lowerSuffix)).findSome? (nonTextFor? o)

/-- The lines of progress. -/
def showProgress (c : Console) (o : RunOptions) (states : List (Nat × Nat)) : Transcript Unit :=
  if o.request.quiet then pure ()
  else states.forM fun (current, total) =>
    print c.terminal ((⟨current, total, "files"⟩ : Progress).line Progress.standardWidth)

/-- The call graph of a directory of sources. -/
def indexedGraph (p : Platform) (c : Console) (o : RunOptions) : Transcript CallGraph := do
  let extraction : Extraction := { Extraction.ofTree c.files with extract := p.extract }
  let request : IndexRequest :=
    { root := o.root, exclude := Settings.texts o.exclude, focus := Settings.texts o.focus }
  match Index.buildWith extraction c.files request with
  | .error e => failAnalysis c e.message
  | .ok index =>
    match nonText? c o .java with
    | some value => stop (.fault (.notPath value))
    | none =>
      showProgress c o index.progress
      log o.verbose index.log
      pure index.graph

/-- The call graph of a call document. -/
def documentGraph (p : Platform) (c : Console) (o : RunOptions) (bytes : List UInt8) :
    Transcript CallGraph := do
  let source := o.root.toString
  match CallDocument.load source bytes p.depth with
  | .ok d =>
    log o.verbose (d.log source)
    pure d.graph
  | .error e =>
    log o.verbose e.log
    if e.isMalformed then failAnalysis c e.message else stop (.fault (.document e))

/-- The call graph of the analyzed path: of a call document if it is a file with the extension of
JSON documents, else of a directory of sources. -/
def callGraph (p : Platform) (c : Console) (o : RunOptions) : Transcript CallGraph :=
  match c.files.read? o.root, o.root.lowerSuffix with
  | some bytes, ".json" => documentGraph p c o bytes
  | _, _ => indexedGraph p c o

/-- The analysis of the analyzed path. -/
def analysis (p : Platform) (c : Console) (o : RunOptions) : Transcript Analysis := do
  match Analysis.ofGraph (← callGraph p c o) with
  | .ok a =>
    log o.verbose a.matrix.log
    pure a
  | .error e => if e.isMalformed then failAnalysis c e.message else stop (.fault (.matrix e))

/-! ### Reports -/

/-- The text of the report in a format. -/
def reportText (c : Console) (o : RunOptions) (a : Analysis) (format : ReportFormat) :
    Transcript String :=
  let calls := if o.request.calls then MethodCalls.ofUnits a.matrix.units.toList else {}
  let report := Report.ofAnalysis a o.root o.threshold calls
  ofExcept ((report.render format o.request.sections c.timestamp).mapError .report)

/-- The task of an analysis: the menu or a report. -/
def task (c : Console) (o : RunOptions) (a : Analysis) : Transcript Task := do
  if o.request.interactive then
    let menu : Menu := { analysis := a, threshold := o.threshold }
    print c.terminal menu.opening
    pure (.menu menu o.verbose)
  else
    if o.request.modules then log o.verbose (a.clusterLog ++ a.identifyLog o.threshold)
    match o.output with
    | some (path, format) => pure (.report path (← reportText c o a format))
    | none =>
      printLine c.terminal (← reportText c o a .text)
      pure .nothing

/-- A run of a request. -/
def analyze (p : Platform) (c : Console) (r : Request) : Transcript Task := do
  let o ← settle p c r
  if !r.quiet then printLine c.terminal s!"📂 Analyzing: {o.root}"
  let a ← analysis p c o
  if !r.quiet then
    printLine c.terminal
      s!"   Found {a.matrix.size} classes, {a.matrix.total.toInt} inter-class calls"
  task c o a

/-! ### Runs -/

/-- A run up to its task. -/
def start (c : Console) (arguments : List String) (p : Platform := {}) : Transcript Task :=
  match Arguments.scan arguments >>= Command.ofArguments c.files.existsAt with
  | .error e => do
    emit (.message (shown c.terminal e.text))
    stop (.exit 2)
  | .ok .showVersion => do
    print c.terminal versionText
    pure .nothing
  | .ok .showUsage => do
    print c.terminal usageText
    pure .nothing
  | .ok (.analyze r) => analyze p c r

/-- What is said after a report was written. -/
def writtenText (path : String) : String := s!"✅ Report written to: {path}\n"

/-- What is said when the answers end before the menu is left. -/
def abortedText : String := "Aborted!\n"

/-- What an answer to the menu leads to. -/
def answer (terminal : Bool) (m : Menu) (verbose : Bool) (line : String) :
    Transcript (Option Menu) := do
  let reply := m.answer line
  log verbose reply.log
  print terminal reply.shown
  pure reply.next

/-- The menu with answers that are known in advance; each one is printed as if it was typed. -/
def answers (terminal : Bool) (m : Menu) (verbose : Bool) : List String → Transcript Unit
  | [] => do
    emit (.message abortedText)
    stop (.exit 1)
  | line :: rest => do
    emit (.output (line ++ "\n"))
    match ← answer terminal m verbose line with
    | none => pure ()
    | some next => answers terminal next verbose rest

/-- What a task leads to: the files after it. -/
def finishTask (c : Console) (input : List String) : Task → Transcript FileTree
  | .nothing => pure c.files
  | .menu m verbose => do
    answers c.terminal m verbose input
    pure c.files
  | .report path text =>
    match c.files.write (.ofString path) (Text.Utf8.encode text) with
    | .error e => stop (.fault (.writing e))
    | .ok files => do
      print c.terminal (writtenText path)
      pure files

/-- A whole run. -/
structure Outcome where
  /-- What was printed. -/
  printed : List Printed
  /-- How the run ended. -/
  ending : Ending
  /-- The files after the run. -/
  files : FileTree

/-- A whole run in which the answers to the menu are the lines of `input`. -/
def finish (c : Console) (arguments input : List String) (p : Platform := {}) : Outcome :=
  let t := start c arguments p >>= finishTask c input
  match t.result with
  | .ok files => ⟨t.printed, .exit 0, files⟩
  | .error e => ⟨t.printed, e, c.files⟩

/-- The lines of an input. -/
def inputLines (input : String) : List String :=
  (Text.splitLines (Text.normalizeNewlines input.toList)).map String.ofList

end Program

end Cohesion
