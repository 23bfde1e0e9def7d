/-
Transcripts of a run.

A run prints texts and messages, in an order, until it has a result or ends early.  A transcript
holds all of that as a value; transcripts are put one after the other like computations.

Main definitions:
* `Printed` — texts on the output and messages beside it;
* `Ending` — how a run ends early;
* `Transcript` — what was printed, and the result or the ending;
* `Transcript.print`, `Transcript.warn`, `Transcript.log`, `Transcript.stop` — the steps of a run.
-/
import Cohesion.CommandLine.Settings
import Cohesion.Text.Controls

set_option autoImplicit false

namespace Cohesion

/-- Something that is printed. -/
inductive Printed where
  /-- On the output. -/
  | output (text : String)
  /-- Beside the output. -/
  | message (text : String)
  deriving DecidableEq, Repr

namespace Printed

/-- All that is on the output. -/
def outputs (printed : List Printed) : String :=
  String.join <| printed.map fun
    | output text => text
    | message _ => ""

/-- All that is beside the output. -/
def messages (printed : List Printed) : String :=
  String.join <| printed.map fun
    | output _ => ""
    | message text => text

end Printed

/-- How a run ends. -/
inductive Ending where
  /-- With a code, zero if all went well. -/
  | exit (code : Nat)
  /-- With a failure that nobody expected. -/
  | fault (f : Fault)
  deriving Repr

/-- What was printed, and the result or an early ending. -/
structure Transcript (α : Type) where
  /-- What was printed. -/
  printed : List Printed
  /-- The result, or how the run ended. -/
  result : Except Ending α

namespace Transcript

/-- A result without anything printed. -/
def done {α : Type} (a : α) : Transcript α := ⟨[], .ok a⟩

/-- The transcript of a run that goes on with the result of another one. -/
def andThen {α β : Type} (t : Transcript α) (next : α → Transcript β) : Transcript β :=
  match t.result with
  | .error e => ⟨t.printed, .error e⟩
  | .ok a => ⟨t.printed ++ (next a).printed, (next a).result⟩

instance : Monad Transcript where
  pure := done
  bind := andThen

/-- A run that ends. -/
def stop {α : Type} (e : Ending) : Transcript α := ⟨[], .error e⟩

/-- A text as it is shown: controls are for terminals only. -/
def shown (terminal : Bool) (text : String) : String :=
  if terminal then text else String.ofList (Text.withoutControls text.toList)

/-- Something printed as it is. -/
def emit (printed : Printed) : Transcript Unit := ⟨[printed], .ok ()⟩

/-- A text on the output. -/
def print (terminal : Bool) (text : String) : Transcript Unit :=
  emit (.output (shown terminal text))

/-- A line on the output. -/
def printLine (terminal : Bool) (text : String) : Transcript Unit := print terminal (text ++ "\n")

/-- A line beside the output. -/
def warn (terminal : Bool) (text : String) : Transcript Unit :=
  emit (.message (shown terminal (text ++ "\n")))

/-- A line beside the output, and the end of the run. -/
def fail {α : Type} (terminal : Bool) (text : String) : Transcript α := do
  warn terminal text
  stop (.exit 1)

/-- The name that stands before the topics of log lines. -/
def logOrigin : String := "code_coupling_engine."

/-- Log lines: all of them, or only those that matter. -/
def log (verbose : Bool) (lines : List LogLine) : Transcript Unit :=
  ⟨(if verbose then lines else LogLine.warnings lines).map fun line =>
    .message (line.render logOrigin ++ "\n"), .ok ()⟩

/-- A value that may be a failure. -/
def ofExcept {α : Type} : Except Fault α → Transcript α
  | .ok a => done a
  | .error f => stop (.fault f)

end Transcript

end Cohesion
