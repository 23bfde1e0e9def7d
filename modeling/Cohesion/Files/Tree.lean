/-
Trees of files.

A tree knows what is at each of its paths: a file with its bytes, or a directory.  Relative paths
are seen from a working directory.

Main definitions:
* `FileEntry` — files and directories;
* `FileTree` — the trees, grown by `FileTree.insert`;
* `FileTree.entry?` — what is at a path, with double dots followed step by step;
* `FileTree.filesBelow` — the files under a directory;
* `FileTree.write` — a file written, or why it cannot be.
-/
import Cohesion.Path
import Cohesion.Text.Quoted
import Cohesion.Text.Utf8

set_option autoImplicit false

namespace Cohesion

/-- What is at a path. -/
inductive FileEntry where
  /-- A file with its bytes. -/
  | file (bytes : List UInt8)
  /-- A directory. -/
  | directory
  deriving Repr

/-- A tree of files, and the directory from which relative paths are seen. -/
structure FileTree where
  /-- The working directory. -/
  cwd : Path
  /-- What is at each path of the tree; the first entry of a path counts. -/
  entries : List (Path × FileEntry)
  deriving Repr

/-- Why a file cannot be written. -/
inductive WriteError where
  /-- A directory on the way does not exist. -/
  | missing (path : String)
  /-- There is a directory at the path. -/
  | isDirectory (path : String)
  /-- Something on the way is no directory. -/
  | notDirectory (path : String)
  deriving DecidableEq, Repr

/-- The wording of an error. -/
def WriteError.message : WriteError → String
  | .missing path => "[Errno 2] No such file or directory: " ++ Text.quoted path
  | .isDirectory path => "[Errno 21] Is a directory: " ++ Text.quoted path
  | .notDirectory path => "[Errno 20] Not a directory: " ++ Text.quoted path

namespace FileTree

/-- A tree with only its working directory and the directories above it. -/
def empty (cwd : Path) : FileTree := ⟨cwd, cwd.ancestors.map fun dir => (dir, .directory)⟩

/-- What is at a path that starts at the root of the tree and has no double dots. -/
def at? (t : FileTree) (p : Path) : Option FileEntry := t.entries.lookup p

/-- There is a directory at a path. -/
def isDirectoryAt (t : FileTree) (p : Path) : Bool :=
  match t.at? p with
  | some .directory => true
  | _ => false

/-- The place reached from a directory by the parts of a path: all but the last one have to lead to
directories, a double dot leads back. -/
def walk? (t : FileTree) (place : Path) : List String → Option Path
  | [] => some place
  | part :: rest =>
    if !t.isDirectoryAt place then none
    else if part == "" || part == "." then t.walk? place rest
    else if part == ".." then t.walk? place.parent rest
    else t.walk? ⟨place.root, place.parts ++ [part]⟩ rest

/-- The place at which the parts of a path start. -/
def origin (t : FileTree) (p : Path) : Path := if p.isAbsolute then ⟨p.root, []⟩ else t.cwd

/-- What is at a path. -/
def entry? (t : FileTree) (p : Path) : Option FileEntry :=
  (t.walk? (t.origin p) p.parts).bind t.at?

/-- There is something at a written path; what is before a slash at its end has to be a
directory. -/
def existsAt (t : FileTree) (written : String) : Bool :=
  let parts := (Text.splitAt '/' written.toList).map String.ofList
  written != "" &&
    match t.walk? (t.origin (Path.ofString written)) parts with
    | none => false
    | some place =>
      (t.at? place).isSome &&
        (t.isDirectoryAt place || !(["", "."].contains (parts.getLast?.getD "")))

/-- There is a file at a path. -/
def isFile (t : FileTree) (p : Path) : Bool :=
  match t.entry? p with
  | some (.file _) => true
  | _ => false

/-- There is a directory at a path. -/
def isDirectory (t : FileTree) (p : Path) : Bool :=
  match t.entry? p with
  | some .directory => true
  | _ => false

/-- The bytes of the file at a path. -/
def read? (t : FileTree) (p : Path) : Option (List UInt8) :=
  match t.entry? p with
  | some (.file bytes) => some bytes
  | _ => none

/-- The parts of a path without double dots, as far as they can lead back. -/
def collapse (parts : List String) : List String :=
  parts.foldl (fun done part => if part == ".." then done.dropLast else done ++ [part]) []

/-- The path from the root of the tree to a path, without double dots. -/
def resolve (t : FileTree) (p : Path) : Path :=
  let full := t.cwd.join p
  ⟨full.root, collapse full.parts⟩

/-- The rest of a path after another one. -/
def below? (dir p : Path) : Option Path :=
  if dir.root == p.root && dir.parts.isPrefixOf p.parts && dir.parts.length < p.parts.length then
    some (Path.ofParts (p.parts.drop dir.parts.length))
  else none

/-- The files under a directory, by their paths seen from it. -/
def filesBelow (t : FileTree) (dir : Path) : List Path :=
  match t.walk? (t.origin dir) dir.parts with
  | none => []
  | some place => t.entries.filterMap fun (p, entry) =>
    match entry with
    | .file _ => below? place p
    | .directory => none

/-- An entry at a path, in place of what is there. -/
def put (t : FileTree) (p : Path) (entry : FileEntry) : FileTree :=
  { t with entries := (p, entry) :: t.entries.filter (·.1 != p) }

/-- The directories on the way from one place along the parts of a path. -/
def putParents (t : FileTree) (place : Path) : List String → FileTree
  | [] => t
  | [_] => t
  | part :: rest =>
    let next : Path := ⟨place.root, place.parts ++ [part]⟩
    (if t.isDirectoryAt next then t else t.put next .directory).putParents next rest

/-- An entry at a path, with all directories on the way. -/
def insert (t : FileTree) (p : Path) (entry : FileEntry) : FileTree :=
  (t.putParents (t.origin p) p.parts).put (t.resolve p) entry

/-- The first place on the way along the parts of a path that is no directory. -/
def blocked? (t : FileTree) (place : Path) : List String → Option Path
  | [] => none
  | part :: rest =>
    if !t.isDirectoryAt place then some place
    else if part == ".." then t.blocked? place.parent rest
    else t.blocked? ⟨place.root, place.parts ++ [part]⟩ rest

/-- A file written to a path. -/
def write (t : FileTree) (p : Path) (bytes : List UInt8) : Except WriteError FileTree :=
  match t.blocked? (t.origin p) p.parts with
  | some place =>
    if (t.at? place).isSome then .error (.notDirectory p.toString)
    else .error (.missing p.toString)
  | none =>
    if t.isDirectory p then .error (.isDirectory p.toString)
    else .ok (t.put ((t.walk? (t.origin p) p.parts).getD p) (.file bytes))

end FileTree

end Cohesion
