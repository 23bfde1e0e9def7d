/-
Nodes of a Java syntax tree.

A node has a kind, a text, the lines it spans, and its children in source order.  The kinds that
matter for classes, members, types and invocations have names, all others are one kind.  A child
may play a role in its parent; only the roles from which units are told are kept.  Comments are
children of the innermost node around them.

Main definitions:
* `Kind`, `Role` — the kinds of nodes and the roles of children;
* `Node` — the trees;
* `Node.child?`, `Node.childText`, `Node.childrenAs` — children by their role.
-/

set_option autoImplicit false

namespace Cohesion.Java

/-- The kind of a node. -/
inductive Kind where
  /-- A whole source. -/
  | program
  /-- A package declaration. -/
  | packageDeclaration
  /-- A name. -/
  | identifier
  /-- A name with dots. -/
  | scopedIdentifier
  /-- The simple name of a type. -/
  | typeIdentifier
  /-- The name of a type with dots. -/
  | scopedTypeIdentifier
  /-- A type with arguments. -/
  | genericType
  /-- An array type. -/
  | arrayType
  /-- A class. -/
  | classDeclaration
  /-- An interface. -/
  | interfaceDeclaration
  /-- An enumeration. -/
  | enumDeclaration
  /-- A record. -/
  | recordDeclaration
  /-- The clause that names a superclass. -/
  | superclass
  /-- The body of a class or a record. -/
  | classBody
  /-- The body of an interface. -/
  | interfaceBody
  /-- The body of an enumeration. -/
  | enumBody
  /-- The declarations that follow the constants of an enumeration. -/
  | enumBodyDeclarations
  /-- A field. -/
  | fieldDeclaration
  /-- A method. -/
  | methodDeclaration
  /-- A parameter list. -/
  | formalParameters
  /-- A parameter. -/
  | formalParameter
  /-- A parameter that takes any number of arguments. -/
  | spreadParameter
  /-- The name and the initial value of a variable. -/
  | variableDeclarator
  /-- A block of statements. -/
  | block
  /-- A declaration of local variables. -/
  | localVariableDeclaration
  /-- A loop over the elements of a collection. -/
  | enhancedForStatement
  /-- An invocation of a method. -/
  | methodInvocation
  /-- A comment. -/
  | comment
  /-- Any other construct. -/
  | other
  deriving DecidableEq, Repr, Inhabited

/-- The role of a child in its parent. -/
inductive Role where
  /-- The name of what is declared, a type, a method or a variable, or of an invoked method. -/
  | name
  /-- The body. -/
  | body
  /-- The clause that names the superclass. -/
  | superclass
  /-- The type of what is declared. -/
  | type
  /-- One of the declared variables. -/
  | declarator
  /-- The parameter list. -/
  | parameters
  /-- The expression before the dot of an invocation. -/
  | object
  /-- The type of the elements of an array. -/
  | element
  deriving DecidableEq, Repr

/-- A node of a syntax tree. -/
structure Node where
  /-- The role in the parent. -/
  role : Option Role
  /-- The kind. -/
  kind : Kind
  /-- The text from the first to the last character. -/
  text : List Char
  /-- The line of the first character, from one. -/
  startLine : Nat
  /-- The line of the last character. -/
  endLine : Nat
  /-- The children in source order. -/
  children : List Node
  deriving Repr, Inhabited

namespace Node

/-- The text as a string. -/
def string (n : Node) : String := String.ofList n.text

/-- The first child in a role. -/
def child? (n : Node) (role : Role) : Option Node := n.children.find? (·.role == some role)

/-- The text of the first child in a role, empty without such a child. -/
def childText (n : Node) (role : Role) : String :=
  match n.child? role with
  | none => ""
  | some c => c.string

/-- All children in a role. -/
def childrenAs (n : Node) (role : Role) : List Node := n.children.filter (·.role == some role)

end Node

end Cohesion.Java
