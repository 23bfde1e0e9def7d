/-
Units of code.

A unit is usually a class: it has a name, a qualified name by which it is known, and a description
of where it is declared and what it declares.  Two units are the same when their qualified names
are equal, whatever the rest says.

Main definitions:
* `Invocation`, `Method`, `Field` — what a unit declares;
* `CodeUnit` — the units, made by `CodeUnit.named` and `CodeUnit.qualifiedAs`;
* `CodeUnit.same` — sameness;
* `CodeUnit.declares`, `CodeUnit.fieldType?`, `Method.typeOf?` — queries;
* `CodeUnit.location` — where a unit is declared.
-/
import Cohesion.Path

set_option autoImplicit false

namespace Cohesion

/-- A method invocation in the body of a method. -/
structure Invocation where
  /-- The name of the invoked method. -/
  method : String
  /-- The text of the expression before the dot, if there is one. -/
  receiver : Option String := none
  /-- The line. -/
  line : Int := 0
  deriving DecidableEq, Repr, Inhabited

/-- A field of a unit. -/
structure Field where
  /-- The name of the field. -/
  name : String
  /-- The name of its type. -/
  type : String
  deriving DecidableEq, Repr, Inhabited

/-- A method of a unit. -/
structure Method where
  /-- The name of the method. -/
  name : String
  /-- The number of parameters. -/
  paramCount : Int := 0
  /-- The first line of the declaration. -/
  startLine : Int := 0
  /-- The last line of the declaration. -/
  endLine : Int := 0
  /-- The invocations in the body. -/
  invocations : List Invocation := []
  /-- The parameters and local variables, with their types. -/
  locals : List (String × String) := []
  deriving DecidableEq, Repr, Inhabited

/-- The lines that the declaration spans beyond its first one. -/
def Method.lineCount (m : Method) : Int := m.endLine - m.startLine

/-- The type of a parameter or local variable; the first declaration of a name counts. -/
def Method.typeOf? (m : Method) (name : String) : Option String :=
  m.locals.lookup name

/-- A unit of code. -/
structure CodeUnit where
  /-- The simple name. -/
  name : String
  /-- The name by which the unit is known. -/
  qualified : String
  /-- The file of the declaration. -/
  file : Option Path := none
  /-- The package. -/
  package : Option String := none
  /-- The name of the superclass. -/
  superclass : Option String := none
  /-- The first line of the declaration. -/
  startLine : Int := 0
  /-- The last line of the declaration. -/
  endLine : Int := 0
  /-- The fields. -/
  fields : List Field := []
  /-- The methods. -/
  methods : List Method := []
  deriving DecidableEq, Repr, Inhabited

namespace CodeUnit

/-- A unit known by its simple name. -/
def named (name : String) : CodeUnit := { name, qualified := name }

/-- A unit with its qualified name, the simple name if that is empty. -/
def qualifiedAs (name qualified : String) : CodeUnit :=
  { name, qualified := if qualified == "" then name else qualified }

/-- A unit known only by its qualified name: the simple name comes after the last dot. -/
def ofQualified (qualified : String) : CodeUnit :=
  qualifiedAs (Text.afterLast '.' qualified) qualified

/-- Sameness of units. -/
def same (a b : CodeUnit) : Bool := a.qualified == b.qualified

/-- The lines that the declaration spans beyond its first one. -/
def lineCount (u : CodeUnit) : Int := u.endLine - u.startLine

/-- Where the unit is declared: its file and lines, or its qualified name without a file. -/
def location (u : CodeUnit) : String :=
  match u.file with
  | none => u.qualified
  | some file => s!"{file}:{u.startLine}-{u.endLine}"

/-- The unit declares a method of this name. -/
def declares (u : CodeUnit) (method : String) : Bool :=
  u.methods.any (·.name == method)

/-- The type of a field; the first declaration of a name counts. -/
def fieldType? (u : CodeUnit) (name : String) : Option String :=
  (u.fields.find? (·.name == name)).map (·.type)

end CodeUnit

end Cohesion
