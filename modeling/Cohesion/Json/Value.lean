/-
Values of JSON documents.

An object keeps its members in the order in which their names first appeared, and a repeated name
keeps its first place and takes the last value.  Integers of any size and floating-point numbers
are different values.

Main definitions:
* `Json` — the values;
* `Json.setMember` — a list of members with one name set;
* `Json.member?` — the value under a name of an object;
* `Json.literal` — the one-line text of a value in messages.
-/
import Cohesion.Number.Notation
import Cohesion.Text.Quoted

set_option autoImplicit false

namespace Cohesion

/-- A value of a JSON document. -/
inductive Json where
  /-- The null value. -/
  | null
  /-- A truth value. -/
  | bool (b : Bool)
  /-- An integer. -/
  | int (n : Int)
  /-- A floating-point number. -/
  | real (x : Binary64)
  /-- A text. -/
  | str (s : String)
  /-- A list of values. -/
  | arr (items : List Json)
  /-- An object: names and values in order. -/
  | obj (members : List (String × Json))
  deriving Repr, Inhabited

namespace Json

/-- The members with `name` set to a value: in its place if it is there, at the end if not. -/
def setMember (name : String) (value : Json) : List (String × Json) → List (String × Json)
  | [] => [(name, value)]
  | (n, v) :: rest =>
    if n == name then (name, value) :: rest else (n, v) :: setMember name value rest

/-- The members of a document in reading order, each name once. -/
def ofMembers (members : List (String × Json)) : List (String × Json) :=
  members.foldl (fun done (name, value) => setMember name value done) []

/-- The value under a name of an object. -/
def member? (name : String) : Json → Option Json
  | .obj members => members.lookup name
  | _ => none

/-- Texts joined by a separator. -/
def joinWith (separator : String) (parts : List String) : String :=
  separator.intercalate parts

mutual

/-- The one-line text of a value in messages. -/
def literal : Json → String
  | .null => "None"
  | .bool true => "True"
  | .bool false => "False"
  | .int n => toString n
  | .real x => NumberNotation.plain.write x
  | .str s => Text.quoted s
  | .arr items => "[" ++ joinWith ", " (literals items) ++ "]"
  | .obj members => "\x7b" ++ joinWith ", " (memberLiterals members) ++ "\x7d"

/-- The one-line texts of a list of values. -/
def literals : List Json → List String
  | [] => []
  | v :: rest => literal v :: literals rest

/-- The one-line texts of the members of an object. -/
def memberLiterals : List (String × Json) → List String
  | [] => []
  | (n, v) :: rest => (Text.quoted n ++ ": " ++ literal v) :: memberLiterals rest

end

end Json

end Cohesion
