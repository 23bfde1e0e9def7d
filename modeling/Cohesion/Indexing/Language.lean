/-
Source languages.

Main definitions:
* `Language` — the languages that can be indexed;
* `Language.ofName?`, `Language.ofPath?` — a language by its name, and by the name of a file;
* `Extractor` — what takes sources apart, `Language.extract` is the one of the program.
-/
import Cohesion.Java.Classes
import Cohesion.Java.Grammar.Program

set_option autoImplicit false

namespace Cohesion

/-- A language whose sources can be indexed. -/
inductive Language where
  /-- Java. -/
  | java
  deriving DecidableEq, Repr

namespace Language

/-- All languages. -/
def all : List Language := [java]

/-- The name of a language. -/
def name : Language → String
  | java => "java"

/-- The extensions of the files of a language. -/
def extensions : Language → List String
  | java => [".java"]

/-- The language of a name in any case. -/
def ofName? (name : String) : Option Language := all.find? (·.name == Text.lowerCase name)

/-- The language of a file, by its extension in any case. -/
def ofPath? (p : Path) : Option Language := all.find? (·.extensions.contains p.lowerSuffix)

end Language

/-! ### Extraction -/

/-- What takes sources apart: the units of a text in a language, or why there are none. -/
abbrev Extractor := Language → Option Path → List Char → Except String (List CodeUnit)

/-- The units of a Java source, by the grammar of the program. -/
def Java.extractUnits (file : Option Path) (text : List Char) : List CodeUnit :=
  extract Node.ofText file text

/-- The extractor of the program. -/
def Language.extract : Extractor
  | java, file, text => .ok (Java.extractUnits file text)

end Cohesion
