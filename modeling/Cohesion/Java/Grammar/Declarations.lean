/-
Declarations of Java.

Main definitions:
* `classBody`, `interfaceBody`, `enumBody` — bodies and their members;
* `typeDeclaration` — classes, interfaces, enumerations, records and annotation types;
* `topLevel` — what a source is made of.
-/
import Cohesion.Java.Grammar.Statements

set_option autoImplicit false

namespace Cohesion.Java

open Phrase

/-! ### Members -/

/-- The exceptions that a method throws. -/
def throwsClause (r : Rules) : Phrase := node .other (seq [word "throws", separated r.type ","])

/-- A method. -/
def method (r : Rules) : Phrase :=
  node .methodDeclaration (seq
    [modifiers r, optional (seq [typeParameters r, many r.annotation]), as .type (plainType r),
     as .name identifier, as .parameters (formalParameters r), optional (dimensions r),
     optional (throwsClause r), choice [as .body r.block, sym ";"]])

/-- A constructor, or the short one of a record. -/
def constructor (r : Rules) : Phrase :=
  choice
    [node .other (seq [modifiers r, optional (typeParameters r), as .name identifier,
      formalParameters r, optional (throwsClause r), as .body r.block]),
     node .other (seq [modifiers r, as .name identifier, as .body r.block])]

/-- Fields of one type. -/
def fields (r : Rules) (kind : Kind) : Phrase :=
  node kind (seq [modifiers r, as .type (plainType r), variableDeclarators r, sym ";"])

/-- A member of a class. -/
def member (r : Rules) : Phrase :=
  choice
    [sym ";",
     r.block,
     node .other (seq [word "static", r.block]),
     r.typeDeclaration,
     method r,
     constructor r,
     fields r .fieldDeclaration]

/-- The body of a class. -/
def classBody (r : Rules) : Phrase :=
  node .classBody (seq [sym "\x7b", many (member r), sym "\x7d"])

/-- The body of an interface. -/
def interfaceBody (r : Rules) : Phrase :=
  node .interfaceBody (seq [sym "\x7b",
    many (choice [sym ";", r.typeDeclaration, method r, fields r .other]), sym "\x7d"])

/-- The body of an annotation type. -/
def annotationTypeBody (r : Rules) : Phrase :=
  let element := node .other (seq [modifiers r, plainType r, identifier, sym "(", sym ")",
    optional (dimensions r), optional (seq [word "default", elementValue r]), sym ";"])
  node .other (seq [sym "\x7b",
    many (choice [sym ";", r.typeDeclaration, element, fields r .other]), sym "\x7d"])

/-- A constant of an enumeration. -/
def enumConstant (r : Rules) : Phrase :=
  node .other (seq [modifiers r, as .name identifier, optional (arguments r),
    optional (as .body r.classBody)])

/-- The body of an enumeration: constants, then declarations after a semicolon. -/
def enumBody (r : Rules) : Phrase :=
  node .enumBody (seq [sym "\x7b", commaList (enumConstant r), optional (sym ","),
    optional (node .enumBodyDeclarations (seq [sym ";", many (member r)])), sym "\x7d"])

/-! ### Types -/

/-- The types that a type implements. -/
def implementsClause (r : Rules) : Phrase := node .other (seq [word "implements", typeList r])

/-- The types that may extend a type. -/
def permitsClause (r : Rules) : Phrase := node .other (seq [word "permits", typeList r])

/-- A class. -/
def classDeclaration (r : Rules) : Phrase :=
  node .classDeclaration (seq
    [modifiers r, word "class", as .name identifier, optional (typeParameters r),
     optional (as .superclass (node .superclass (seq [word "extends", r.type]))),
     optional (implementsClause r), optional (permitsClause r), as .body (classBody r)])

/-- An interface. -/
def interfaceDeclaration (r : Rules) : Phrase :=
  node .interfaceDeclaration (seq
    [modifiers r, word "interface", as .name identifier, optional (typeParameters r),
     optional (node .other (seq [word "extends", typeList r])), optional (permitsClause r),
     as .body (interfaceBody r)])

/-- An enumeration. -/
def enumDeclaration (r : Rules) : Phrase :=
  node .enumDeclaration (seq
    [modifiers r, word "enum", as .name identifier, optional (implementsClause r),
     as .body (enumBody r)])

/-- A record. -/
def recordDeclaration (r : Rules) : Phrase :=
  node .recordDeclaration (seq
    [modifiers r, word "record", as .name identifier, optional (typeParameters r),
     as .parameters (formalParameters r), optional (implementsClause r), as .body (classBody r)])

/-- An annotation type. -/
def annotationTypeDeclaration (r : Rules) : Phrase :=
  node .other (seq
    [modifiers r, sym "@", word "interface", as .name identifier, as .body (annotationTypeBody r)])

/-- The declaration of a type. -/
def typeDeclaration (r : Rules) : Phrase :=
  choice
    [classDeclaration r, interfaceDeclaration r, enumDeclaration r, recordDeclaration r,
     annotationTypeDeclaration r]

/-! ### Sources -/

/-- The declaration of the package. -/
def packageDeclaration (r : Rules) : Phrase :=
  node .packageDeclaration (seq [many r.annotation, word "package", qualifiedName, sym ";"])

/-- An import. -/
def importDeclaration : Phrase :=
  node .other (seq [word "import", optional (word "static"), qualifiedName,
    optional (seq [sym ".", sym "*"]), sym ";"])

/-- A module with its directives. -/
def moduleDeclaration (r : Rules) : Phrase :=
  let directive := node .other (seq
    [wordIn ["requires", "exports", "opens", "uses", "provides"],
     many (choice [tokenWhere (·.kind == .word), sym ".", sym ","]), sym ";"])
  node .other (seq [many r.annotation, optional (word "open"), word "module", qualifiedName,
    sym "\x7b", many directive, sym "\x7d"])

/-- What a source is made of. -/
def topLevel (r : Rules) : Phrase :=
  choice
    [packageDeclaration r, importDeclaration, moduleDeclaration r, r.typeDeclaration, method r,
     r.statement]

end Cohesion.Java
