/-
The command line.

The part of the file system that a run looks at is loaded into a tree: the directories above the
path with their configuration files, and what is at the path.  After the run its task is done with
the real files and the real input.

Main definitions:
* `loadFiles` — the tree of files;
* `runMenu` — the menu with answers from the input;
* `main` — the program.
-/
import Cohesion.CommandLine.Program
import Std.Time.Zoned

set_option autoImplicit false

namespace Cohesion.CommandLine

/-- The bytes of the file at a path; none if it cannot be read. -/
def readBytes (path : String) : IO (List UInt8) := do
  match ← (IO.FS.readBinFile path).toBaseIO with
  | .ok bytes => return bytes.toList
  | .error _ => return []

/-- The tree with all that is at a path and below it; files are read if `wanted` says so. -/
partial def loadBelow (wanted : Path → Bool) (files : FileTree) (path : Path) : IO FileTree := do
  match ← (IO.FS.realPath path.toString).toBaseIO with
  | .error _ => return files
  | .ok place =>
    if ← place.isDir then
      let entries ← place.readDir
      entries.foldlM
        (fun files entry => loadBelow wanted files (path.join (.ofParts [entry.fileName])))
        (files.insert path .directory)
    else
      let bytes ← if wanted path then readBytes path.toString else pure []
      return files.insert path (.file bytes)

/-- The tree with the configuration files of a directory. -/
def loadConfiguration (files : FileTree) (dir : Path) : IO FileTree :=
  Configuration.fileNames.foldlM (fun files name => do
    let path := dir.join (.ofString name)
    match ← (IO.FS.readBinFile path.toString).toBaseIO with
    | .ok bytes => return files.insert path (.file bytes.toList)
    | .error _ => return files) files

/-- The files that a run with the given arguments looks at. -/
def loadFiles (arguments : List String) : IO FileTree := do
  let files := FileTree.empty (.ofString (← IO.currentDir).toString)
  match Arguments.scan arguments with
  | .ok { paths := path :: _, .. } =>
    let root := files.resolve (.ofString path)
    let wanted (file : Path) : Bool := file == root || (Language.ofPath? file).isSome
    let files ← loadBelow wanted files root
    root.ancestors.foldlM loadConfiguration files
  | _ => return files

/-- What is printed, on the streams of the process. -/
def put (printed : List Printed) : IO Unit :=
  printed.forM fun
    | .output text => do
      let stream ← IO.getStdout
      stream.putStr text
      stream.flush
    | .message text => IO.eprint text

/-- A failure, and the code of the process after it. -/
def putFailure (message : String) : IO UInt32 := do
  IO.eprintln message
  return 1

/-- The code of the process after a run. -/
def endingCode : Ending → IO UInt32
  | .exit code => return code.toUInt32
  | .fault f => putFailure f.message

/-- A line without its end. -/
def lineText (line : String) : String :=
  String.ofList ((line.toList.reverse.dropWhile fun c => c == '\n' || c == '\r').reverse)

/-- The menu with answers from the input. -/
partial def runMenu (terminal : Bool) (m : Menu) (verbose : Bool) : IO UInt32 := do
  let line ← (← IO.getStdin).getLine
  if line.isEmpty then
    IO.eprint Program.abortedText
    return 1
  let t := Program.answer terminal m verbose (lineText line)
  put t.printed
  match t.result with
  | .error e => endingCode e
  | .ok none => return 0
  | .ok (some next) => runMenu terminal next verbose

/-- The task of a run. -/
def runTask (terminal : Bool) : Task → IO UInt32
  | .nothing => return 0
  | .menu m verbose => runMenu terminal m verbose
  | .report path text => do
    match ← (IO.FS.writeFile path text).toBaseIO with
    | .error e => putFailure (toString e)
    | .ok () =>
      put [.output (Program.writtenText path)]
      return 0

/-- The time now, for reports. -/
def timestamp : IO String := do
  let now ← Std.Time.PlainDateTime.now
  let date : Toml.Date := ⟨now.year.toInt.toNat, now.month.val.toNat, now.day.val.toNat⟩
  let time : Toml.TimeOfDay :=
    ⟨now.hour.val.toNat, now.minute.val.toNat, now.second.val.toNat,
      now.nanosecond.val.toNat / 1000⟩
  return date.text ++ "T" ++ time.text

end Cohesion.CommandLine

open Cohesion Cohesion.CommandLine in
/-- The program. -/
def main (arguments : List String) : IO UInt32 := do
  let terminal ← (← IO.getStdout).isTty
  let console : Console := ⟨terminal, ← timestamp, ← loadFiles arguments⟩
  let t := Program.start console arguments
  put t.printed
  match t.result with
  | .ok task => runTask terminal task
  | .error e => endingCode e
