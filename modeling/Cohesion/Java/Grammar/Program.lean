/-
Syntax trees of Java sources.

The grammar is the parser that the program runs with.  It takes whole programs: a text that is none
has a tree without declarations.

Main definitions:
* `Rules.next`, `Rules.level` — the rules of each level;
* `Node.ofSource?` — the syntax tree of a source;
* `Node.ofText?`, `Node.ofText` — the syntax tree of a text.
-/
import Cohesion.Java.Grammar.Declarations

set_option autoImplicit false

namespace Cohesion.Java

/-- The rules of the level above. -/
def Rules.next (r : Rules) : Rules where
  type := Java.annotatedType r
  annotation := Java.annotation r
  expression := Java.expression r
  labelExpression := Java.labelExpression r
  elements := Java.elements r
  recordPattern := Java.recordPattern r
  statement := Java.statement r
  block := Java.block r
  classBody := Java.classBody r
  typeDeclaration := Java.typeDeclaration r

/-- The rules of a level. -/
def Rules.level : Nat → Rules
  | 0 => .never
  | n + 1 => (Rules.level n).next

/-- The whole of a source as a node, with the comments around its pieces. -/
def programNode (pieces : List Piece) (trailing : Lead) : Node where
  role := none
  kind := .program
  text := (pieces.flatMap fun p => p.lead.text ++ p.text) ++ trailing.text
  startLine := 1
  endLine := lineAfter 1 ((pieces.flatMap fun p => p.lead.text ++ p.text) ++ trailing.text)
  children := (pieces.flatMap fun p => p.lead.comments ++ p.nodes) ++ trailing.comments

/-- The syntax tree of tokens: every use of a rule by another one, but for at most three in a row,
reads a token, so four levels for each token are enough. -/
def Node.ofSource? (s : Source) : Option Node :=
  let rules := Rules.level (4 * s.tokens.length + 4)
  match Phrase.many (topLevel rules) s.tokens with
  | some (pieces, []) => some (programNode pieces s.trailing)
  | _ => none

/-- The syntax tree of a text that is a program. -/
def Node.ofText? (cs : List Char) : Option Node :=
  (Source.ofText? cs).bind Node.ofSource?

/-- The syntax tree of a text. -/
def Node.ofText (cs : List Char) : Node :=
  (Node.ofText? cs).getD ⟨none, .program, cs, 1, lineAfter 1 cs, []⟩

end Cohesion.Java
