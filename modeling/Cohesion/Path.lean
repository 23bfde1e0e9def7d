/-
Paths in a tree of files.

A path is a root, which is empty for a relative path, and a list of parts.  Empty parts and single
dots carry no meaning and are dropped when a path is read; double dots stay.

Main definitions:
* `Path.ofString`, `Path.toString` — reading and writing;
* `Path.join` — a path seen from another one;
* `Path.name`, `Path.suffix`, `Path.parent` — the last part, its extension, and what is before;
* `Path.ancestors` — a path and all directories above it;
* `Path.before` — the order of paths, part by part.
-/
import Cohesion.Text.Lines
import Cohesion.Text.LowerCase

set_option autoImplicit false

namespace Cohesion

/-- A path. -/
structure Path where
  /-- The slashes that an absolute path starts with; empty for a relative path. -/
  root : String
  /-- The parts, none of them empty or a single dot. -/
  parts : List String
  deriving DecidableEq, Repr, Inhabited

namespace Path

/-- The root of a written path: exactly two slashes are kept, three and more count as one. -/
def rootOf : List Char → String
  | '/' :: '/' :: '/' :: _ => "/"
  | '/' :: '/' :: _ => "//"
  | '/' :: _ => "/"
  | _ => ""

/-- A part that has a meaning. -/
def isPart (part : String) : Bool := part != "" && part != "."

/-- The path that a text spells. -/
def ofString (s : String) : Path where
  root := rootOf s.toList
  parts := ((Text.splitAt '/' s.toList).map String.ofList).filter isPart

/-- A relative path. -/
def ofParts (parts : List String) : Path := ⟨"", parts⟩

/-- The text of a path; the empty relative path is a single dot. -/
def toString (p : Path) : String :=
  if p.root == "" && p.parts.isEmpty then "." else p.root ++ "/".intercalate p.parts

instance : ToString Path := ⟨toString⟩

/-- The path starts at the root of the tree. -/
def isAbsolute (p : Path) : Bool := p.root != ""

/-- The path `q` seen from `p`. -/
def join (p q : Path) : Path :=
  if q.isAbsolute then q else ⟨p.root, p.parts ++ q.parts⟩

/-- The last part. -/
def name (p : Path) : String := p.parts.getLast?.getD ""

/-- The path without its last part. -/
def parent (p : Path) : Path := ⟨p.root, p.parts.dropLast⟩

/-- A path and all directories above it, nearest first. -/
def ancestors (p : Path) : List Path :=
  (List.range (p.parts.length + 1)).map fun n => ⟨p.root, p.parts.take (p.parts.length - n)⟩

/-- The extension of a name: from its last dot on, if characters stand on both sides of it. -/
def extension (name : String) : String :=
  let reversed := name.toList.reverse
  let after := reversed.takeWhile (· != '.')
  let before := (reversed.dropWhile (· != '.')).tail
  if after.isEmpty || before.isEmpty then "" else String.ofList ('.' :: after.reverse)

/-- The extension of the last part. -/
def suffix (p : Path) : String := extension p.name

/-- The extension of the last part, in lower case. -/
def lowerSuffix (p : Path) : String := Text.lowerCase p.suffix

/-- The order of paths: part by part, parts by their characters. -/
def before (p q : Path) : Bool := decide (p.parts < q.parts)

end Path

end Cohesion
