/-
Statements of Java.

Main definitions:
* `variableDeclarators` — the names and the initial values of variables;
* `block`, `statement` — statements.
-/
import Cohesion.Java.Grammar.Expressions

set_option autoImplicit false

namespace Cohesion.Java

open Phrase

/-- A variable with its initial value. -/
def variableDeclarator (r : Rules) : Phrase :=
  node .variableDeclarator (seq [declaredName r,
    optional (seq [sym "=", choice [r.elements, r.expression]])])

/-- Variables with commas between. -/
def variableDeclarators (r : Rules) : Phrase :=
  separated (as .declarator (variableDeclarator r)) ","

/-- A declaration of local variables. -/
def localVariables (r : Rules) : Phrase :=
  node .localVariableDeclaration
    (seq [modifiers r, as .type (plainType r), variableDeclarators r, sym ";"])

/-- A block of statements. -/
def block (r : Rules) : Phrase :=
  node .block (seq [sym "\x7b", many r.statement, sym "\x7d"])

/-- A loop over the elements of a collection. -/
def enhancedFor (r : Rules) : Phrase :=
  node .enhancedForStatement (seq [word "for", sym "(", modifiers r, as .type (plainType r),
    declaredName r, sym ":", r.expression, sym ")", as .body r.statement])

/-- A counting loop. -/
def countingFor (r : Rules) : Phrase :=
  node .other (seq [word "for", sym "(",
    choice [localVariables r, seq [commaList r.expression, sym ";"]],
    optional r.expression, sym ";", commaList r.expression, sym ")", r.statement])

/-- A resource that is opened for a block. -/
def resource (r : Rules) : Phrase :=
  node .other (choice
    [seq [modifiers r, plainType r, identifier, sym "=", r.expression], r.expression])

/-- A block with resources, and what is done when it fails or ends. -/
def tryStatement (r : Rules) : Phrase :=
  let resources := seq [sym "(", separated (resource r) ";", optional (sym ";"), sym ")"]
  let handler := node .other (seq [word "catch", sym "(", modifiers r, separated (plainType r) "|",
    identifier, sym ")", r.block])
  node .other (seq [word "try", optional (node .other resources), r.block, many handler,
    optional (node .other (seq [word "finally", r.block]))])

/-- The statements that start with a keyword. -/
def keywordStatement (r : Rules) : Phrase :=
  choice
    [seq [word "if", parenthesized r, r.statement, optional (seq [word "else", r.statement])],
     seq [word "while", parenthesized r, r.statement],
     seq [word "do", r.statement, word "while", parenthesized r, sym ";"],
     seq [word "return", optional r.expression, sym ";"],
     seq [word "throw", r.expression, sym ";"],
     seq [word "yield", r.expression, sym ";"],
     seq [wordIn ["break", "continue"], optional identifier, sym ";"],
     seq [word "assert", r.expression, optional (seq [sym ":", r.expression]), sym ";"],
     seq [word "synchronized", parenthesized r, r.block],
     seq [before identifier (sym ":"), sym ":", r.statement]]

/-- A statement. -/
def statement (r : Rules) : Phrase :=
  choice
    [sym ";",
     r.block,
     node .other (keywordStatement r),
     enhancedFor r,
     countingFor r,
     tryStatement r,
     switchExpression r,
     r.typeDeclaration,
     localVariables r,
     node .other (seq [r.expression, sym ";"])]

end Cohesion.Java
