/-
Indexing a directory of sources.

The units of all source files are brought into the order of their qualified names, those of one
name in the order of their files; of the units of one name only the first is kept.  A file that
cannot be read or taken apart has no units, and a warning tells why.

Main definitions:
* `Collection`, `Collection.ofFiles` — the units of several files, and those that were dropped;
* `Extraction` — how files are read and taken apart;
* `Index`, `Index.buildWith`, `Index.build` — the index of a directory;
* `IndexError` — why a directory cannot be indexed;
* `Index.graph`, `Index.log`, `Index.progress` — its call graph, and what is told about the work.
-/
import Cohesion.Files.Search
import Cohesion.Indexing.Language
import Cohesion.Log
import Cohesion.Resolution.Basic

set_option autoImplicit false

namespace Cohesion

/-! ### Collecting units -/

/-- A unit that was dropped because its name was taken. -/
structure Duplicate where
  /-- The unit that is kept. -/
  kept : CodeUnit
  /-- The unit that is dropped. -/
  dropped : CodeUnit
  deriving Repr

/-- What is said about a duplicate. -/
def Duplicate.line (d : Duplicate) : LogLine :=
  ⟨.warning, "indexer",
    s!"Class {d.kept.qualified} is declared in both {d.kept.location} and {d.dropped.location}; " ++
      "keeping the first"⟩

/-- The text of the file of a unit, for ordering. -/
def CodeUnit.fileText (u : CodeUnit) : String :=
  match u.file with
  | none => "None"
  | some file => file.toString

/-- The order of units: by qualified name, then by the text of the file. -/
def CodeUnit.atMost (a b : CodeUnit) : Bool :=
  decide (a.qualified < b.qualified) ||
    (a.qualified == b.qualified && !decide (b.fileText < a.fileText))

/-- The units of several files. -/
structure Collection where
  /-- The units, each name once. -/
  units : List CodeUnit
  /-- The units that were dropped. -/
  duplicates : List Duplicate
  deriving Repr

/-- The units of a list of which those before it have kept the units `kept`. -/
def Collection.keepFirst (kept : List CodeUnit) : List CodeUnit → Collection
  | [] => ⟨[], []⟩
  | u :: rest =>
    match kept.find? (·.same u) with
    | some first =>
      let others := keepFirst kept rest
      { others with duplicates := ⟨first, u⟩ :: others.duplicates }
    | none =>
      let others := keepFirst (u :: kept) rest
      { others with units := u :: others.units }

/-- The units of several files, given file by file. -/
def Collection.ofFiles (files : List (List CodeUnit)) : Collection :=
  keepFirst [] (files.flatten.mergeSort CodeUnit.atMost)

/-! ### Indexing -/

/-- What is to be indexed. -/
structure IndexRequest where
  /-- The directory. -/
  root : Path
  /-- Patterns of files to leave out, besides those that are always left out. -/
  exclude : List String := []
  /-- Patterns of the only files to look at, if there are any. -/
  focus : List String := []
  /-- The name of the language. -/
  language : String := "java"
  deriving Repr

/-- Why a directory cannot be indexed. -/
inductive IndexError where
  /-- There is nothing at the path. -/
  | missing (path : Path)
  /-- There is no directory at the path. -/
  | notDirectory (path : Path)
  /-- The language is not known. -/
  | unsupportedLanguage (name : String)
  deriving DecidableEq, Repr

/-- The wording of an error. -/
def IndexError.message : IndexError → String
  | .missing path => s!"Path does not exist: {path}"
  | .notDirectory path => s!"Not a directory: {path}"
  | .unsupportedLanguage name => "Unsupported language: " ++ Text.lowerCase name

/-- How the units of files are come by. -/
structure Extraction where
  /-- The bytes of a file, or why it cannot be read. -/
  read : Path → Except String (List UInt8)
  /-- What takes sources apart. -/
  extract : Extractor

/-- All files of a tree are read, and taken apart by the extractor of the program. -/
def Extraction.ofTree (t : FileTree) : Extraction :=
  ⟨fun file => .ok ((t.read? file).getD []), Language.extract⟩

/-- A file that has no units because it cannot be read or taken apart. -/
structure FailedFile where
  /-- The file. -/
  path : Path
  /-- The reason. -/
  reason : String
  deriving DecidableEq, Repr

/-- What is said about such a file. -/
def FailedFile.line (f : FailedFile) : LogLine :=
  ⟨.warning, "indexer", s!"Failed to process {f.path}: {f.reason}"⟩

/-- The index of a directory. -/
structure Index where
  /-- The directory. -/
  root : Path
  /-- The source files, by their paths seen from the directory. -/
  files : List Path
  /-- The files that could not be processed. -/
  failures : List FailedFile
  /-- The units of the files. -/
  collection : Collection
  deriving Repr

namespace Index

/-- The text of a file: what is no UTF-8 is replaced, line ends become line feeds. -/
def sourceText (bytes : List UInt8) : List Char :=
  Text.normalizeNewlines (Text.Utf8.decodeLenient bytes)

/-- The units in a language of a file under a directory, or why there are none. -/
def extracted (x : Extraction) (root : Path) (l : Language) (file : Path) :
    Except String (List CodeUnit) := do
  let bytes ← x.read (root.join file)
  x.extract l (some file) (sourceText bytes)

/-- What comes of a file under a directory: its units, if the language of the file has exactly the
given name. -/
def process (x : Extraction) (root : Path) (language : String) (file : Path) :
    Except String (List CodeUnit) :=
  match Language.ofPath? file with
  | none => .ok []
  | some l => if l.name == language then extracted x root l file else .ok []

/-- The failure of a file, if there is one. -/
def failure? (root file : Path) : Except String (List CodeUnit) → Option FailedFile
  | .ok _ => none
  | .error reason => some ⟨root.join file, reason⟩

/-- The filter of a request for a language. -/
def filterOf (r : IndexRequest) (l : Language) : SourceFilter where
  extensions := l.extensions
  exclude := defaultExcludes ++ r.exclude
  focus := r.focus

/-- The index of a directory. -/
def buildWith (x : Extraction) (t : FileTree) (r : IndexRequest) : Except IndexError Index :=
  if (t.entry? r.root).isNone then .error (.missing r.root)
  else if !t.isDirectory r.root then .error (.notDirectory r.root)
  else
    match Language.ofName? r.language with
    | none => .error (.unsupportedLanguage r.language)
    | some l =>
      let files := (filterOf r l).select r.root (t.filesBelow r.root)
      let results := files.map (process x r.root r.language)
      .ok { root := r.root, files
            failures := (files.zip results).filterMap fun (file, result) =>
              failure? r.root file result
            collection := .ofFiles (results.map fun result => result.toOption.getD []) }

/-- The index of a directory whose files can all be read, by the extractor of the program. -/
def build (t : FileTree) (r : IndexRequest) : Except IndexError Index :=
  buildWith (.ofTree t) t r

/-- The units. -/
def units (i : Index) : List CodeUnit := i.collection.units

/-- The call graph of the units. -/
def graph (i : Index) : CallGraph := .ofUnits i.units

/-- What is said about the work. -/
def log (i : Index) : List LogLine :=
  [⟨.info, "indexer", s!"Found {i.files.length} source files under {i.root}"⟩] ++
  i.failures.map (·.line) ++
  i.collection.duplicates.map (·.line) ++
  [⟨.info, "indexer",
    s!"Indexed {i.units.length} classes, {i.graph.total} inter-class calls"⟩]

/-- The reports of progress: the number of files done and the number of all files. -/
def progress (i : Index) : List (Nat × Nat) :=
  i.files.mapIdx fun n _ => (n + 1, i.files.length)

end Index

end Cohesion
