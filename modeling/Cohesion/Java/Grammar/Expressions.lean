/-
Expressions of Java.

The operators of an expression are read as a flat sequence: their precedence does not matter for
what is invoked, nor for the order in which it is written.  What matters is read with care: which
expression stands before the dot of an invocation.

Main definitions:
* `primary` — operands: literals, names, invocations, accesses, creations;
* `operand` — operands with function literals, casts and switches;
* `expression`, `labelExpression` — expressions, and those that are no function literals;
* `formalParameters` — the parameters of methods and function literals;
* `recordPattern`, `pattern` — patterns;
* `switchBlock` — the cases of a switch.
-/
import Cohesion.Java.Grammar.Types

set_option autoImplicit false

namespace Cohesion.Java

open Phrase

/-! ### Operands -/

/-- A literal. -/
def literal : Phrase :=
  node .other (choice [tokenWhere (·.kind == .literal), wordIn ["true", "false", "null"]])

/-- The current object. -/
def currentObject : Phrase := node .other (word "this")

/-- The current object as one of its superclass. -/
def parentObject : Phrase := node .other (word "super")

/-- The creation of an object or an array. -/
def creation (r : Rules) : List Phrase :=
  let size := node .other (seq [many r.annotation, sym "[", r.expression, sym "]"])
  [word "new", many r.annotation, optional (typeArguments r), many r.annotation, elementType r,
   choice
    [seq [arguments r, optional r.classBody],
     seq [oneOrMore size, optional (dimensions r)],
     seq [dimensions r, r.elements]]]

/-- A type as an operand: of a reference to a method, or of its class literal. -/
def typeOperand (r : Rules) : Phrase :=
  choice
    [before (plainType r) (sym "::"),
     node .other (seq [plainType r, sym ".", word "class"])]

/-- The operands that contain no operand before a dot. -/
def primaryBase (r : Rules) : Phrase :=
  choice
    [typeOperand r,
     literal,
     node .methodInvocation (seq [as .name identifier, arguments r]),
     identifier,
     node .other (seq [choice [currentObject, parentObject], arguments r]),
     currentObject,
     before parentObject (choice [sym ".", sym "::"]),
     node .other (seq (creation r)),
     parenthesized r]

/-- What can follow an operand and take it in. -/
def primaryStep (r : Rules) (p : Piece) : Phrase :=
  let invocation (middle : Phrase) : Phrase :=
    node .methodInvocation (seq [as .object (given p), sym ".", middle,
      optional (typeArguments r), as .name memberName, arguments r])
  let dotted (rest : List Phrase) : Phrase := node .other (seq (given p :: sym "." :: rest))
  choice
    [invocation (seq []),
     invocation (seq [parentObject, sym "."]),
     dotted [parentObject, arguments r],
     before (dotted [parentObject]) (choice [sym ".", sym "::"]),
     dotted (creation r),
     dotted [wordIn ["this", "class"]],
     dotted [memberName],
     dotted [literal],
     node .other (seq [given p, sym "[", r.expression, sym "]"]),
     node .other (seq [given p, sym "::", optional (typeArguments r),
       choice [word "new", memberName]])]

/-- An operand without operators. -/
def primary (r : Rules) : Phrase := grow (primaryBase r) (primaryStep r)

/-! ### Parameters -/

/-- A name that is declared, with brackets that may follow it. -/
def declaredName (r : Rules) : Phrase :=
  seq [as .name identifier, optional (dimensions r)]

/-- The parameter that stands for the current object. -/
def receiverParameter (r : Rules) : Phrase :=
  node .other (seq [many r.annotation, plainType r, many (seq [identifier, sym "."]), word "this"])

/-- A parameter that takes any number of arguments. -/
def spreadParameter (r : Rules) : Phrase :=
  node .spreadParameter (seq [modifiers r, plainType r, many r.annotation, sym "...",
    node .variableDeclarator (declaredName r)])

/-- A parameter. -/
def formalParameter (r : Rules) : Phrase :=
  node .formalParameter (seq [modifiers r, as .type (plainType r), declaredName r])

/-- The parameters of a method or a function literal. -/
def formalParameters (r : Rules) : Phrase :=
  node .formalParameters (seq [sym "(",
    commaList (choice [receiverParameter r, spreadParameter r, formalParameter r]), sym ")"])

/-! ### Function literals, casts and switches -/

/-- A function literal. -/
def functionLiteral (r : Rules) : Phrase :=
  let names := node .other (seq [sym "(", commaList identifier, sym ")"])
  node .other (seq
    [choice [before identifier (sym "->"), before names (sym "->"), formalParameters r],
     sym "->", choice [r.block, r.expression]])

/-- A token that can start an operand. -/
def startsOperand (t : Token) : Bool :=
  match t.kind with
  | .literal => true
  | .word => t.text != "instanceof".toList
  | .symbol => t.text == ['('] || t.text == ['!'] || t.text == ['~']

/-- The type in parentheses that starts a cast: a cast to a class type is told from an expression
in parentheses by what follows. -/
def castType (r : Rules) : Phrase :=
  let primitive := seq [sym "(", primitiveType, optional (dimensions r), sym ")"]
  let reference := seq [sym "(", separated r.type "&", sym ")"]
  choice [primitive, before reference (tokenWhere startsOperand)]

/-- An operator. -/
def operator : Phrase :=
  tokenWhere fun t => t.kind == .symbol &&
    [["++"], ["--"], ["+"], ["-"], ["*"], ["/"], ["%"], ["&"], ["|"], ["^"], ["!"], ["~"], ["<"],
      [">"], ["="]].any fun o => o.any (t.text == ·.toList)

/-- A pattern that takes a record apart. -/
def recordPattern (r : Rules) : Phrase :=
  let component := choice [r.recordPattern, seq [plainType r, identifier], identifier]
  node .other (seq [classType r, node .other (seq [sym "(", commaList component, sym ")"])])

/-- A pattern: a record taken apart, or a type with a name. -/
def pattern (r : Rules) : Phrase :=
  choice [r.recordPattern, node .other (seq [plainType r, identifier])]

/-- The label of a case. -/
def switchLabel (r : Rules) : Phrase :=
  let ending := choice [sym "->", sym ":", sym ",", word "when"]
  let item := choice [before (pattern r) ending, word "default", r.labelExpression]
  node .other (choice
    [seq [word "case", separated item ",", optional (seq [word "when", r.labelExpression])],
     word "default"])

/-- The cases of a switch. -/
def switchBlock (r : Rules) : Phrase :=
  let group := seq [switchLabel r, sym ":"]
  let rule := seq [switchLabel r, sym "->", r.statement]
  node .other (seq [sym "\x7b", many (choice [group, rule, r.statement]), sym "\x7d"])

/-- A switch. -/
def switchExpression (r : Rules) : Phrase :=
  node .other (seq [word "switch", parenthesized r, switchBlock r])

/-! ### Expressions -/

/-- An operand with the casts and operators before it. -/
def operand (r : Rules) (functions : Phrase) : Phrase :=
  seq [many (choice [operator, castType r]),
    choice [functions, switchExpression r, primary r]]

/-- What follows an operand in an expression: a type test, a condition's two branches, or
operators with one more operand unless they stand at the end. -/
def continuation (r : Rules) (functions : Phrase) : Phrase :=
  choice
    [seq [word "instanceof", optional (word "final"),
      choice [r.recordPattern, seq [r.type, optional identifier]]],
     seq [sym "?", r.expression, sym ":", operand r functions],
     seq [oneOrMore operator, optional (operand r functions)]]

/-- An expression in which function literals are read by the given phrase. -/
def expressionWith (r : Rules) (functions : Phrase) : Phrase :=
  node .other (seq [operand r functions, many (continuation r functions)])

/-- An expression. -/
def expression (r : Rules) : Phrase := expressionWith r (functionLiteral r)

/-- An expression that is no function literal. -/
def labelExpression (r : Rules) : Phrase := expressionWith r never

end Cohesion.Java
