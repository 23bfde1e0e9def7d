/-
The rules of the Java grammar that refer to each other.

A rule of one level uses the rules of the level below.  The lowest level has rules that never
apply, so a tower of levels as high as a source is long reads everything in it.

Main definitions:
* `Rules` — the rules of a level;
* `Rules.never` — the lowest level;
* `identifier`, `parenthesized` — rules that are used everywhere.
-/
import Cohesion.Java.Phrase

set_option autoImplicit false

namespace Cohesion.Java

/-- Rules that refer to each other. -/
structure Rules where
  /-- A type that may have annotations. -/
  type : Phrase
  /-- An annotation. -/
  annotation : Phrase
  /-- An expression. -/
  expression : Phrase
  /-- An expression that is no function literal, as in the label of a case. -/
  labelExpression : Phrase
  /-- The elements of an array in braces. -/
  elements : Phrase
  /-- A pattern that takes a record apart. -/
  recordPattern : Phrase
  /-- A statement. -/
  statement : Phrase
  /-- A block of statements. -/
  block : Phrase
  /-- The body of a class. -/
  classBody : Phrase
  /-- The declaration of a class, an interface, an enumeration, a record or an annotation type. -/
  typeDeclaration : Phrase

/-- Rules that never apply. -/
def Rules.never : Rules :=
  let p := Phrase.never
  ⟨p, p, p, p, p, p, p, p, p, p⟩

open Phrase

/-- The words that are no names. -/
def keywords : List String :=
  ["abstract", "assert", "boolean", "break", "byte", "case", "catch", "char", "class", "continue",
   "default", "do", "double", "else", "enum", "extends", "false", "final", "finally", "float",
   "for", "if", "implements", "import", "instanceof", "int", "interface", "long", "native", "new",
   "null", "package", "private", "protected", "public", "return", "short", "static", "strictfp",
   "super", "switch", "synchronized", "this", "throw", "throws", "transient", "true", "try",
   "void", "volatile", "while"]

/-- A token that is a name. -/
def nameToken (t : Token) : Bool :=
  t.kind == .word && !keywords.any (t.text == ·.toList)

/-- A name. -/
def identifier : Phrase := node .identifier (tokenWhere nameToken)

/-- A name after a dot, where keywords that cannot stand there are names too. -/
def memberName : Phrase :=
  node .identifier (tokenWhere fun t =>
    t.kind == .word && !(["new", "class", "super", "this"].any (t.text == ·.toList)))

/-- A name with any number of dots. -/
def qualifiedName : Phrase :=
  grow identifier fun p => node .scopedIdentifier (seq [given p, sym ".", identifier])

/-- An expression in parentheses. -/
def parenthesized (r : Rules) : Phrase := node .other (seq [sym "(", r.expression, sym ")"])

/-- The arguments of an invocation. -/
def arguments (r : Rules) : Phrase :=
  node .other (seq [sym "(", commaList r.expression, sym ")"])

end Cohesion.Java
