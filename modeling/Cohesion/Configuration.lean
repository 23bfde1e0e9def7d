/-
Configuration files.

The options of the program can be written in the table `cce` of a TOML document.  The document is
looked for in the directory of the analyzed path and in all directories above it, nearest first.

Main definitions:
* `Configuration` — what a configuration file says;
* `Configuration.file?` — the file that counts for a path;
* `Configuration.loadWith`, `Configuration.load` — what it says;
* `Configuration.prefer` — the value of an option that may be configured.
-/
import Cohesion.Files.Tree
import Cohesion.Toml.Document

set_option autoImplicit false

namespace Cohesion

/-- Why a configuration file cannot be loaded. -/
inductive ConfigurationError where
  /-- The file is not UTF-8. -/
  | encoding (e : Text.Utf8.DecodeError)
  /-- An integer has too many digits. -/
  | hugeInteger (digits : Nat)
  /-- Lists and tables are nested too deeply. -/
  | tooDeep
  deriving DecidableEq, Repr

/-- The wording of an error. -/
def ConfigurationError.message : ConfigurationError → String
  | .encoding e => e.message
  | .hugeInteger digits => (Toml.ReadError.hugeInteger digits).message
  | .tooDeep => Toml.ReadError.tooDeep.message

/-- What a configuration file says. -/
structure Configuration where
  /-- The file, if there is one. -/
  file : Option Path
  /-- The value under the key of the program, which should be a table. -/
  value : Toml
  /-- Why the file is ignored, if it is. -/
  ignored : Option String
  deriving Repr

namespace Configuration

/-- The names of configuration files; in one directory the first one counts. -/
def fileNames : List String := [".ccerc", ".cce.toml"]

/-- The key of the program in a document. -/
def key : String := "cce"

/-- The value of the program in a document. -/
def section? (document : Toml.Table) : Option Toml := document.lookup key

/-- The directory in which the search for a path starts. -/
def startDirectory (t : FileTree) (start : Path) : Path :=
  let place := t.resolve start
  if t.isFile place then place.parent else place

/-- The file that counts for a path. -/
def file? (t : FileTree) (start : Path) : Option Path :=
  ((startDirectory t start).ancestors.flatMap fun dir =>
    fileNames.map fun name => dir.join (.ofString name)).find? t.isFile

/-- What a file with the given bytes says: nothing if it is malformed. -/
def ofBytes (nesting : Toml.Nesting) (file : Path) (bytes : List UInt8) :
    Except ConfigurationError Configuration :=
  match Text.Utf8.decode bytes with
  | .error e => .error (.encoding e)
  | .ok text =>
    match Toml.parse text nesting with
    | .ok document => .ok ⟨some file, (section? document).getD (.table []), none⟩
    | .error (.hugeInteger digits) => .error (.hugeInteger digits)
    | .error .tooDeep => .error .tooDeep
    | .error e => .ok ⟨some file, .table [], some e.message⟩

/-- What the file that counts for a path says, where `read` gives the bytes of a file, or the reason
why it cannot be read: then the file is ignored. -/
def loadWith (nesting : Toml.Nesting) (t : FileTree) (read : Path → Except String (List UInt8))
    (start : Path) : Except ConfigurationError Configuration :=
  match file? t start with
  | none => .ok ⟨none, .table [], none⟩
  | some file =>
    match read file with
    | .error reason => .ok ⟨some file, .table [], some reason⟩
    | .ok bytes => ofBytes nesting file bytes

/-- What the file that counts for a path says, where all files can be read. -/
def load (t : FileTree) (start : Path) (nesting : Toml.Nesting := {}) :
    Except ConfigurationError Configuration :=
  loadWith nesting t (fun file => .ok ((t.read? file).getD [])) start

/-- What is said about a file that is ignored. -/
def warning? (c : Configuration) : Option String :=
  match c.file, c.ignored with
  | some file, some reason => some s!"Ignoring config file {file}: {reason}"
  | _, _ => none

/-- The value of an option: the given one unless it is the default, else the configured one, else
the default.  Only where the configured value is needed does it matter that it may be missing. -/
def prefer {ε α : Type} (same : α → α → Bool) (given default : α)
    (configured : Except ε (Option α)) : Except ε α :=
  if same given default then configured.map (·.getD default) else .ok given

end Configuration

end Cohesion
