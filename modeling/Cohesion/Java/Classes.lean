/-
The classes of a Java source.

Every class becomes a unit, wherever it is nested in other types; interfaces, enumerations and
records are no units, but their names are part of the qualified names of the classes in them.  A
method is described by its parameters, by the invocations in its body and by the types of its local
variables; a class that is declared in a body is a scope of its own and left out.

How a text is parsed is not for this part to say.  The units are told from any syntax tree, and a
parser is given to what starts from a text.

Main definitions:
* `Node.typeName?` — the simple name of a type;
* `Node.scope` — the nodes of a body in source order;
* `Node.invocation?`, `Node.localTypes` — what a node of a body contributes;
* `Node.units` — the units under a node;
* `Parser`, `extract` — the units of a source, by a parser.
-/
import Cohesion.CodeUnit
import Cohesion.Java.Node

set_option autoImplicit false

namespace Cohesion.Java

/-! ### Types -/

mutual

/-- The simple name of a type, without arguments and brackets. -/
def Node.typeName? : Node → Option String
  | ⟨_, kind, text, _, _, children⟩ =>
    match kind with
    | .genericType => firstTypeName? children
    | .arrayType => elementTypeName? children
    | .scopedTypeIdentifier => some ((children.getLast?.map (·.string)).getD "")
    | _ => some (String.ofList text)

/-- The name of the type that comes first. -/
def firstTypeName? : List Node → Option String
  | [] => none
  | n :: _ => n.typeName?

/-- The name of the type of the elements of an array. -/
def elementTypeName? : List Node → Option String
  | [] => none
  | n@⟨role, _, _, _, _, _⟩ :: rest =>
    if role == some .element then n.typeName? else elementTypeName? rest

end

/-- The name of the type that a declaration has in its type role. -/
def Node.declaredType? (n : Node) : Option String := (n.child? .type).bind Node.typeName?

/-- A variable with its type, if that has a name. -/
def typedName (name : String) (type : Option String) : List (String × String) :=
  match type with
  | none => []
  | some type => if type == "" then [] else [(name, type)]

/-! ### Bodies -/

mutual

/-- The node and all nodes below it, each before its children, without classes and what is in
them. -/
def Node.scope : Node → List Node
  | n@⟨_, kind, _, _, _, children⟩ =>
    if kind == .classDeclaration then [] else n :: scopeOfAll children

/-- The nodes of a list and all nodes below them. -/
def scopeOfAll : List Node → List Node
  | [] => []
  | n :: rest => n.scope ++ scopeOfAll rest

end

/-- The invocation that a node is. -/
def Node.invocation? (n : Node) : Option Invocation :=
  if n.kind == .methodInvocation then
    some ⟨n.childText .name, (n.child? .object).map (·.string), n.startLine⟩
  else none

/-- The local variables that a node declares, with their types. -/
def Node.localTypes (n : Node) : List (String × String) :=
  match n.kind with
  | .localVariableDeclaration =>
    (n.childrenAs .declarator).flatMap fun d => typedName (d.childText .name) n.declaredType?
  | .enhancedForStatement =>
    match n.child? .name with
    | none => []
    | some name => typedName name.string n.declaredType?
  | _ => []

/-! ### Members -/

/-- The kinds of nodes that name the type of a parameter of any number of arguments. -/
def isTypeNode (n : Node) : Bool :=
  n.kind == .typeIdentifier || n.kind == .genericType || n.kind == .scopedTypeIdentifier ||
    n.kind == .arrayType

/-- A parameter with its type.  A parameter of any number of arguments has them in its children. -/
def Node.parameterType (n : Node) : List (String × String) :=
  let (name, type) :=
    if n.kind == .spreadParameter then
      let name := match (n.children.filter (·.kind == .variableDeclarator)).getLast? with
        | some declarator => declarator.child? .name
        | none => n.child? .name
      (name, (n.child? .type).or (n.children.find? isTypeNode))
    else (n.child? .name, n.child? .type)
  match name with
  | none => []
  | some name => typedName name.string (type.bind Node.typeName?)

/-- The parameters of a method; one that stands for the current object does not count. -/
def Node.parameters (n : Node) : List Node :=
  match n.child? .parameters with
  | none => []
  | some list =>
    list.children.filter fun p => p.kind == .formalParameter || p.kind == .spreadParameter

/-- The nodes of the body of a method. -/
def Node.bodyScope (n : Node) : List Node :=
  match n.child? .body with
  | none => []
  | some body => body.scope

/-- The method that a node declares. -/
def Node.method (n : Node) : Method where
  name := n.childText .name
  paramCount := n.parameters.length
  startLine := n.startLine
  endLine := n.endLine
  invocations := n.bodyScope.filterMap Node.invocation?
  locals := n.parameters.flatMap Node.parameterType ++ n.bodyScope.flatMap Node.localTypes

/-- The fields that a member of a class declares. -/
def Node.fields (n : Node) : List Field :=
  if n.kind == .fieldDeclaration then
    (n.childrenAs .declarator).map fun d => ⟨d.childText .name, n.declaredType?.getD ""⟩
  else []

/-- The members of a type. -/
def Node.members (n : Node) : List Node := ((n.child? .body).map (·.children)).getD []

/-- The name of the superclass of a class. -/
def Node.superclassName? (n : Node) : Option String :=
  (n.child? .superclass).bind fun clause => clause.children.head?.bind Node.typeName?

/-! ### Classes -/

/-- Where classes are found: the file, the package and the types around them. -/
structure Surroundings where
  /-- The file, if there is one. -/
  file : Option Path
  /-- The package. -/
  package : Option String
  /-- The names of the enclosing types, from the outside in. -/
  enclosing : List String

/-- The qualified name of a type in its surroundings. -/
def Surroundings.qualified (s : Surroundings) (name : String) : String :=
  let package := match s.package with
    | none => []
    | some p => if p == "" then [] else [p]
  ".".intercalate (package ++ s.enclosing ++ [name])

/-- The surroundings of what is inside a type. -/
def Surroundings.inside (s : Surroundings) (name : String) : Surroundings :=
  { s with enclosing := s.enclosing ++ [name] }

/-- The unit of a class. -/
def Node.unit (s : Surroundings) (n : Node) : CodeUnit :=
  let name := n.childText .name
  { CodeUnit.qualifiedAs name (s.qualified name) with
    file := s.file
    package := s.package
    superclass := n.superclassName?
    startLine := n.startLine
    endLine := n.endLine
    fields := n.members.flatMap Node.fields
    methods := (n.members.filter (·.kind == .methodDeclaration)).map Node.method }

/-- The types other than classes in which classes are found. -/
def isContainer (kind : Kind) : Bool :=
  kind == .interfaceDeclaration || kind == .enumDeclaration || kind == .recordDeclaration

/-- The bodies in which classes are found. -/
def isBody (kind : Kind) : Bool :=
  kind == .classBody || kind == .interfaceBody || kind == .enumBody || kind == .enumBodyDeclarations

mutual

/-- The units of a node: of a class itself and of what is in a type or a body. -/
def Node.units (s : Surroundings) : Node → List CodeUnit
  | n@⟨_, kind, _, _, _, children⟩ =>
    let inner := s.inside (n.childText .name)
    if kind == .classDeclaration then n.unit s :: unitsOfBody inner children
    else if isContainer kind then unitsOfBody inner children
    else if isBody kind then unitsOfAll s children
    else []

/-- The units of a list of nodes. -/
def unitsOfAll (s : Surroundings) : List Node → List CodeUnit
  | [] => []
  | n :: rest => n.units s ++ unitsOfAll s rest

/-- The units in the first body of a list of nodes. -/
def unitsOfBody (s : Surroundings) : List Node → List CodeUnit
  | [] => []
  | ⟨role, _, _, _, _, children⟩ :: rest =>
    if role == some .body then unitsOfAll s children else unitsOfBody s rest

end

/-- The package that a program declares first. -/
def Node.package? (n : Node) : Option String :=
  let declarations := n.children.filter (·.kind == .packageDeclaration)
  let names := declarations.filterMap fun d =>
    d.children.find? fun c => c.kind == .scopedIdentifier || c.kind == .identifier
  names.head?.map (·.string)

/-- The units of the program of a file. -/
def Node.programUnits (file : Option Path) (program : Node) : List CodeUnit :=
  unitsOfAll ⟨file, program.package?, []⟩ program.children

/-- A parser of sources: the syntax tree of a text. -/
abbrev Parser := List Char → Node

/-- The units of a source, by a parser. -/
def extract (parse : Parser) (file : Option Path) (text : List Char) : List CodeUnit :=
  (parse text).programUnits file

end Cohesion.Java
