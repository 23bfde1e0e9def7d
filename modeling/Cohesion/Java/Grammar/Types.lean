/-
Types and annotations of Java.

Main definitions:
* `plainType` — a type without annotations of its own;
* `annotatedType` — a type with or without them;
* `typeArguments`, `typeParameters` — what stands between angle brackets;
* `annotation`, `elements` — annotations, and elements in braces.
-/
import Cohesion.Java.Grammar.Rules

set_option autoImplicit false

namespace Cohesion.Java

open Phrase

/-- A primitive type, or the type of no value. -/
def primitiveType : Phrase :=
  node .other (wordIn
    ["boolean", "byte", "char", "double", "float", "int", "long", "short", "void"])

/-- The simple name of a type. -/
def typeIdentifier : Phrase := node .typeIdentifier (tokenWhere nameToken)

/-- A type argument that is not fixed. -/
def wildcard (r : Rules) : Phrase :=
  node .other
    (seq [many r.annotation, sym "?", optional (seq [wordIn ["extends", "super"], r.type])])

/-- Type arguments in angle brackets. -/
def typeArguments (r : Rules) : Phrase :=
  node .other (seq [sym "<", commaList (choice [wildcard r, r.type]), sym ">"])

/-- The name of a class type, with dots and type arguments. -/
def classType (r : Rules) : Phrase :=
  grow typeIdentifier fun p => choice
    [node .genericType (seq [given p, typeArguments r]),
     node .scopedTypeIdentifier (seq [given p, sym ".", many r.annotation, typeIdentifier])]

/-- A type that is no array. -/
def elementType (r : Rules) : Phrase := choice [primitiveType, classType r]

/-- The brackets of an array type. -/
def dimensions (r : Rules) : Phrase :=
  node .other (oneOrMore (seq [many r.annotation, sym "[", sym "]"]))

/-- A type without annotations of its own. -/
def plainType (r : Rules) : Phrase :=
  grow (elementType r) fun p => node .arrayType (seq [as .element (given p), dimensions r])

/-- A type that may have annotations. -/
def annotatedType (r : Rules) : Phrase :=
  choice [node .other (seq [oneOrMore r.annotation, plainType r]), plainType r]

/-- Several types with commas between. -/
def typeList (r : Rules) : Phrase := node .other (separated r.type ",")

/-- A type parameter with its bounds. -/
def typeParameter (r : Rules) : Phrase :=
  node .other (seq [many r.annotation, typeIdentifier,
    optional (seq [word "extends", separated r.type "&"])])

/-- Type parameters in angle brackets. -/
def typeParameters (r : Rules) : Phrase :=
  node .other (seq [sym "<", separated (typeParameter r) ",", sym ">"])

/-- A value in an annotation or in braces. -/
def elementValue (r : Rules) : Phrase := choice [r.annotation, r.elements, r.expression]

/-- Elements in braces; the last one may be followed by a comma. -/
def elements (r : Rules) : Phrase :=
  node .other (seq [sym "\x7b", commaList (elementValue r), optional (sym ","), sym "\x7d"])

/-- An annotation with its arguments. -/
def annotation (r : Rules) : Phrase :=
  let pair := node .other (seq [identifier, sym "=", elementValue r])
  node .other (seq [sym "@", qualifiedName,
    optional (node .other (seq [sym "(", commaList (choice [pair, elementValue r]), sym ")"]))])

/-- The words that modify a declaration. -/
def modifierWords : List String :=
  ["abstract", "default", "final", "native", "private", "protected", "public", "static",
   "strictfp", "synchronized", "transient", "volatile"]

/-- A modifier: a word or an annotation; whether subclasses are restricted is told by words that are
no keywords elsewhere. -/
def modifier (r : Rules) : Phrase :=
  let following := wordIn ("class" :: "interface" :: "sealed" :: "non" :: modifierWords)
  choice
    [wordIn modifierWords,
     before (word "sealed") following,
     before (seq [word "non", sym "-", word "sealed"]) following,
     r.annotation]

/-- The modifiers of a declaration, if it has any. -/
def modifiers (r : Rules) : Phrase := optional (node .other (oneOrMore (modifier r)))

end Cohesion.Java
