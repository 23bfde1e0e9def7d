/-
Log lines.

Every activity tells what it did in lines of a level and a topic.  The lines are computed from the
results, so that an activity itself is a plain function.

Main definitions:
* `LogLine` — a line;
* `LogLine.render` — its text, with a name before the topic.
-/

set_option autoImplicit false

namespace Cohesion

/-- How much a line matters. -/
inductive LogLevel where
  /-- Details of the work. -/
  | debug
  /-- Results of the work. -/
  | info
  /-- Something the user should look at. -/
  | warning
  deriving DecidableEq, Repr

/-- The name of a level. -/
def LogLevel.name : LogLevel → String
  | .debug => "DEBUG"
  | .info => "INFO"
  | .warning => "WARNING"

/-- A line of the log. -/
structure LogLine where
  /-- How much the line matters. -/
  level : LogLevel
  /-- The activity that wrote the line. -/
  topic : String
  /-- The message. -/
  text : String
  deriving DecidableEq, Repr

/-- The text of a line, where `origin` stands before the topic. -/
def LogLine.render (origin : String) (line : LogLine) : String :=
  s!"{line.level.name} {origin}{line.topic}: {line.text}"

/-- The lines that matter at least as much as a warning. -/
def LogLine.warnings (lines : List LogLine) : List LogLine :=
  lines.filter (·.level == .warning)

end Cohesion
