/-
The menu.

After an analysis the menu asks for a choice, shows what was chosen and asks again, until it is
left.  For the modules it asks for a threshold, which it keeps for the next time.  An answer that is
not understood is asked for again.

Main definitions:
* `Menu` — the state of the menu between two answers;
* `Menu.opening` — what is shown at first;
* `Menu.answer` — what an answer leads to.
-/
import Cohesion.Number.Reading
import Cohesion.Report.PlainText
import Cohesion.Resolution.Basic
import Cohesion.Text.Quoted

set_option autoImplicit false

namespace Cohesion

/-- What the menu asks for. -/
inductive MenuQuestion where
  /-- The number of a choice. -/
  | choice
  /-- The threshold of modules. -/
  | threshold
  deriving DecidableEq, Repr

/-- The state of the menu between two answers. -/
structure Menu where
  /-- The analysis. -/
  analysis : Analysis
  /-- The threshold of the last time. -/
  threshold : Binary64
  /-- What is asked for. -/
  question : MenuQuestion := .choice

/-- What an answer leads to. -/
structure MenuReply where
  /-- What is shown, up to the next question. -/
  shown : String
  /-- What is said about the work. -/
  log : List LogLine := []
  /-- The menu that waits for the next answer, if it is not left. -/
  next : Option Menu

namespace Menu

/-- The choices. -/
def choices : String :=
  "\n================ MENU ================\n" ++
    "--- Structure ---\n" ++
    "1. Show class tree\n" ++
    "2. Show statistics\n" ++
    "3. Show method call graph\n" ++
    "--- Coupling ---\n" ++
    "4. Show weighted coupling graph\n" ++
    "5. Identify modules (hierarchical clustering)\n" ++
    "--------------------------------------\n" ++
    "0. Quit\n"

/-- The question that the menu waits with. -/
def prompt (m : Menu) : String :=
  match m.question with
  | .choice => "Enter your choice (0-5): "
  | .threshold =>
    s!"Enter the coupling threshold 'CP' (e.g. 0.1) [{NumberNotation.plain.write m.threshold}]: "

/-- What is shown at first. -/
def opening (m : Menu) : String := choices ++ m.prompt

/-- The same question again, after a message. -/
def askAgain (m : Menu) (message : String) : MenuReply := ⟨message ++ m.prompt, [], some m⟩

/-- The menu again, after what was chosen is shown. -/
def showAnd (m : Menu) (text : String) (log : List LogLine) : MenuReply :=
  let next := { m with question := .choice }
  ⟨text ++ "\n" ++ next.opening, log, some next⟩

/-- The modules at a threshold. -/
def showModules (m : Menu) (threshold : Binary64) : MenuReply :=
  { m with analysis := m.analysis.clustered, threshold }.showAnd
    (modulesText (m.analysis.identify threshold))
    (m.analysis.clusterLog ++ m.analysis.identifyLog threshold)

/-- What a choice leads to. -/
def choose (m : Menu) (choice : Int) : MenuReply :=
  let units := m.analysis.matrix.units.toList
  match choice with
  | 0 => ⟨"Goodbye.\n", [], none⟩
  | 1 => m.showAnd (classTreeText units) []
  | 2 => m.showAnd (statisticsText (.ofUnits units)) []
  | 3 => m.showAnd (methodCallsText (.ofUnits units)) []
  | 4 => m.showAnd (couplingText m.analysis.matrix.pairs m.analysis.matrix.total.toInt) []
  | 5 =>
    let next := { m with question := .threshold }
    ⟨next.prompt, [], some next⟩
  | _ => m.showAnd "Invalid choice. Please try again." []

/-- What is said about an answer that is no number of a kind. -/
def notNumber (answer kind : String) : String :=
  "Error: " ++ Text.quoted answer ++ s!" is not a valid {kind}.\n"

/-- What an answer leads to. -/
def answer (m : Menu) (line : String) : MenuReply :=
  match m.question with
  | .choice =>
    if line == "" then m.askAgain ""
    else
      match readInteger? line with
      | some choice => m.choose choice
      | none => m.askAgain (notNumber line "integer")
  | .threshold =>
    if line == "" then m.showModules m.threshold
    else
      match readReal? line with
      | some threshold => m.showModules threshold
      | none => m.askAgain (notNumber line "float")

end Menu

end Cohesion
