/-
The arguments of the command line.

An argument that starts with a dash holds options: a long one after two dashes, with its value after
an equals sign or in the next argument, or several short ones after one dash, the last of which may
be followed by its value.  After two dashes alone, and everywhere between the options, stand paths.

Main definitions:
* `Instruction` — what an option tells the program;
* `CommandOption` — the options and their names;
* `Arguments`, `Arguments.scan` — the instructions and paths of a list of arguments;
* `UsageError` — why arguments are refused, with `UsageError.text`.
-/
import Cohesion.Text.Quoted
import Cohesion.Text.Similarity

set_option autoImplicit false

namespace Cohesion

/-- What an option tells the program. -/
inductive Instruction where
  /-- The threshold of modules, as it is written. -/
  | threshold (text : String)
  /-- The file that the report is written to. -/
  | output (path : String)
  /-- With or without the coupled pairs. -/
  | coupling (shown : Bool)
  /-- With or without the modules. -/
  | modules (shown : Bool)
  /-- With the statistics. -/
  | stats
  /-- With the units and their members. -/
  | tree
  /-- With the calls between methods. -/
  | calls
  /-- Without the files that match a pattern. -/
  | exclude (pattern : String)
  /-- Only with files that match a pattern. -/
  | focus (pattern : String)
  /-- Through the menu. -/
  | interactive
  /-- With all log lines. -/
  | verbose
  /-- Without progress. -/
  | quiet
  /-- Only tell the version. -/
  | version
  /-- Only tell the usage. -/
  | help
  deriving DecidableEq, Repr

/-- What an option needs to become an instruction. -/
inductive Effect where
  /-- The option is an instruction by itself. -/
  | alone (instruction : Instruction)
  /-- The option makes an instruction of a value. -/
  | withValue (make : String → Instruction)

/-- An option of the command line. -/
structure CommandOption where
  /-- The letter after a single dash. -/
  letter : Option Char
  /-- The name with two dashes. -/
  name : String
  /-- What the option does. -/
  effect : Effect
  /-- What is said about the option. -/
  summary : String

namespace CommandOption

/-- All options. -/
def all : List CommandOption :=
  [⟨some 't', "--threshold", .withValue .threshold, "Cohesion threshold of modules (default: 0.1)"⟩,
    ⟨some 'o', "--output", .withValue .output, "Report file (.md, .json or .txt)"⟩,
    ⟨none, "--coupling", .alone (.coupling true), "Include the coupled pairs (default)"⟩,
    ⟨none, "--no-coupling", .alone (.coupling false), "Leave out the coupled pairs"⟩,
    ⟨none, "--modules", .alone (.modules true), "Include the modules (default)"⟩,
    ⟨none, "--no-modules", .alone (.modules false), "Leave out the modules"⟩,
    ⟨none, "--stats", .alone .stats, "Include statistics"⟩,
    ⟨none, "--tree", .alone .tree, "Include the class tree"⟩,
    ⟨none, "--calls", .alone .calls, "Include the method call graph"⟩,
    ⟨some 'e', "--exclude", .withValue .exclude, "Leave out matching files (repeatable)"⟩,
    ⟨some 'f', "--focus", .withValue .focus, "Only look at matching files (repeatable)"⟩,
    ⟨some 'i', "--interactive", .alone .interactive, "Open the menu after the analysis"⟩,
    ⟨some 'v', "--verbose", .alone .verbose, "Show all log lines"⟩,
    ⟨some 'q', "--quiet", .alone .quiet, "Hide the progress"⟩,
    ⟨none, "--version", .alone .version, "Show the version"⟩,
    ⟨none, "--help", .alone .help, "Show this text"⟩]

/-- The option of a letter. -/
def ofLetter? (letter : Char) : Option CommandOption := all.find? (·.letter == some letter)

/-- The option of a name. -/
def ofName? (name : String) : Option CommandOption := all.find? (·.name == name)

end CommandOption

/-! ### Refused arguments -/

/-- Why arguments are refused. -/
inductive UsageError where
  /-- There is no such option; some are similar. -/
  | unknownOption (name : String) (similar : List String)
  /-- An option stands at the end without its value. -/
  | missingValue (name : String)
  /-- An option has a value that it does not need. -/
  | needlessValue (name : String)
  /-- The threshold is no number. -/
  | thresholdNotNumber (text : String)
  /-- There is no path. -/
  | missingPath
  /-- There is nothing at the path. -/
  | pathNotFound (path : String)
  /-- There is more than one path. -/
  | extraArguments (arguments : List String)
  deriving DecidableEq, Repr

namespace UsageError

/-- What is said about similar options. -/
def suggestion : List String → String
  | [] => ""
  | [name] => " Did you mean " ++ Text.quoted name ++ "?"
  | names => " (Possible options: " ++ ", ".intercalate (names.map Text.quoted) ++ ")"

/-- The wording of an error. -/
def message : UsageError → String
  | unknownOption name similar => "No such option " ++ Text.quoted name ++ "." ++ suggestion similar
  | missingValue name => "Option " ++ Text.quoted name ++ " requires an argument."
  | needlessValue name => "Option " ++ Text.quoted name ++ " does not take a value."
  | thresholdNotNumber text =>
    "Invalid value for '-t' / '--threshold': " ++ Text.quoted text ++ " is not a valid float."
  | missingPath => "Missing argument 'PATH'."
  | pathNotFound path =>
    "Invalid value for 'PATH': Path " ++ Text.quoted path ++ " does not exist."
  | extraArguments [one] => s!"Got unexpected extra argument ({one})"
  | extraArguments several =>
    "Got unexpected extra arguments (" ++ " ".intercalate several ++ ")"

/-- The errors in the value of an option are shown without the usage. -/
def showsUsage : UsageError → Bool
  | missingValue _ => false
  | needlessValue _ => false
  | _ => true

/-- The line that shows how the program is used. -/
def usageLine : String := "Usage: cce [OPTIONS] PATH\n"

/-- What is shown for an error. -/
def text (e : UsageError) : String :=
  (if e.showsUsage then usageLine ++ "Try 'cce --help' for help.\n\n" else "") ++
    s!"Error: {e.message}\n"

end UsageError

/-! ### Scanning -/

/-- The options of one argument. -/
inductive OptionScan where
  /-- The instructions of the argument. -/
  | complete (instructions : List Instruction)
  /-- The instructions of the argument, and an option whose value is the next argument. -/
  | waiting (instructions : List Instruction) (name : String) (make : String → Instruction)

namespace OptionScan

/-- An instruction before the others. -/
def before (instruction : Instruction) : OptionScan → OptionScan
  | complete instructions => complete (instruction :: instructions)
  | waiting instructions name make => waiting (instruction :: instructions) name make

/-- The short options of an argument, without its dash. -/
def ofLetters : List Char → Except UsageError OptionScan
  | [] => .ok (complete [])
  | letter :: rest =>
    let name := String.ofList ['-', letter]
    match CommandOption.ofLetter? letter with
    | none => .error (.unknownOption name [])
    | some option =>
      match option.effect with
      | .alone instruction => (ofLetters rest).map (before instruction)
      | .withValue make =>
        .ok (if rest.isEmpty then waiting [] name make else complete [make (String.ofList rest)])

/-- A long option with the value after its equals sign. -/
def ofName (option : CommandOption) (value : Option String) : Except UsageError OptionScan :=
  match option.effect, value with
  | .alone instruction, none => .ok (complete [instruction])
  | .alone _, some _ => .error (.needlessValue option.name)
  | .withValue make, none => .ok (waiting [] option.name make)
  | .withValue make, some value => .ok (complete [make value])

/-- The name and the value of a long option, around the first equals sign. -/
def splitValue (argument : List Char) : String × Option String :=
  match argument.dropWhile (· != '=') with
  | _ :: value => (String.ofList (argument.takeWhile (· != '=')), some (String.ofList value))
  | [] => (String.ofList argument, none)

/-- The options of an argument. -/
def ofArgument (argument : String) : Except UsageError OptionScan :=
  let (name, value) := splitValue argument.toList
  match CommandOption.ofName? name with
  | some option => ofName option value
  | none =>
    match argument.toList with
    | '-' :: '-' :: _ =>
      .error (.unknownOption name (Text.similarWords (CommandOption.all.map (·.name)) name))
    | letters => ofLetters letters.tail

end OptionScan

/-- The instructions and the paths of the command line. -/
structure Arguments where
  /-- The instructions in their order. -/
  instructions : List Instruction := []
  /-- What is no option. -/
  paths : List String := []
  deriving DecidableEq, Repr

namespace Arguments

/-- An argument that holds options: more than a single dash. -/
def holdsOptions (argument : String) : Bool :=
  match argument.toList with
  | '-' :: _ :: _ => true
  | _ => false

/-- Instructions before all others. -/
def withInstructions (a : Arguments) (instructions : List Instruction) : Arguments :=
  { a with instructions := instructions ++ a.instructions }

/-- The instructions and the paths of a list of arguments. -/
def scan : List String → Except UsageError Arguments
  | [] => .ok {}
  | argument :: rest =>
    if argument == "--" then .ok { paths := rest }
    else if !holdsOptions argument then do
      let a ← scan rest
      .ok { a with paths := argument :: a.paths }
    else
      match OptionScan.ofArgument argument, rest with
      | .error e, _ => .error e
      | .ok (.complete instructions), rest => (scan rest).map (·.withInstructions instructions)
      | .ok (.waiting _ name _), [] => .error (.missingValue name)
      | .ok (.waiting instructions _ make), value :: rest =>
        (scan rest).map (·.withInstructions (instructions ++ [make value]))

end Arguments

end Cohesion
