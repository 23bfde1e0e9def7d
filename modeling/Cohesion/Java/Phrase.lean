/-
Phrases: rules of a grammar.

A phrase reads tokens from the front of a list and gives pieces of a syntax tree, or does not
apply.  Phrases are put together in order, by ordered choice and by repetition.  A piece is a token
or a node, still with the blanks and comments before it: these join the text of the node that the
piece becomes part of, unless the piece comes first in it.

Main definitions:
* `Piece` — tokens and nodes, `Piece.group` makes a node of several pieces;
* `Phrase` — the rules, with `Phrase.seq`, `Phrase.choice`, `Phrase.many` and others.
-/
import Cohesion.Java.Token

set_option autoImplicit false

namespace Cohesion.Java

/-- A part of a syntax tree with what stands before it. -/
structure Piece where
  /-- The blanks and comments before it. -/
  lead : Lead
  /-- The text. -/
  text : List Char
  /-- The line of the first character. -/
  startLine : Nat
  /-- The line of the last character. -/
  endLine : Nat
  /-- The role in the parent. -/
  role : Option Role := none
  /-- The kind of the node, none for a token that is no node. -/
  kind : Option Kind := none
  /-- The children of the node. -/
  children : List Node := []
  deriving Repr

namespace Piece

/-- A token as a piece. -/
def ofToken (t : Token) : Piece :=
  { lead := t.lead, text := t.text, startLine := t.startLine, endLine := t.endLine }

/-- The node of a piece, if it is one. -/
def nodes (p : Piece) : List Node :=
  match p.kind with
  | none => []
  | some kind => [⟨p.role, kind, p.text, p.startLine, p.endLine, p.children⟩]

/-- A node made of pieces. -/
def group (kind : Kind) (first : Piece) (rest : List Piece) : Piece where
  lead := first.lead
  text := first.text ++ rest.flatMap fun p => p.lead.text ++ p.text
  startLine := first.startLine
  endLine := (rest.getLast?.getD first).endLine
  kind := some kind
  children := first.nodes ++ rest.flatMap fun p => p.lead.comments ++ p.nodes

end Piece

/-- A rule: the pieces at the front of a list of tokens, and the tokens that follow. -/
abbrev Phrase := List Token → Option (List Piece × List Token)

namespace Phrase

/-- The phrase that never applies. -/
def never : Phrase := fun _ => none

/-- The phrase of no tokens that gives a piece. -/
def given (p : Piece) : Phrase := fun ts => some ([p], ts)

/-- A token that passes a test. -/
def tokenWhere (test : Token → Bool) : Phrase
  | [] => none
  | t :: ts => if test t then some ([.ofToken t], ts) else none

/-- A symbol. -/
def sym (text : String) : Phrase := tokenWhere fun t => t.kind == .symbol && t.text == text.toList

/-- A word. -/
def word (text : String) : Phrase := tokenWhere fun t => t.kind == .word && t.text == text.toList

/-- One of some words. -/
def wordIn (texts : List String) : Phrase :=
  tokenWhere fun t => t.kind == .word && texts.any (t.text == ·.toList)

/-- Phrases one after the other. -/
def seq : List Phrase → Phrase
  | [] => fun ts => some ([], ts)
  | p :: ps => fun ts =>
    match p ts with
    | none => none
    | some (pieces, ts) => (seq ps ts).map fun (more, ts) => (pieces ++ more, ts)

/-- The first phrase that applies. -/
def choice : List Phrase → Phrase
  | [] => never
  | p :: ps => fun ts =>
    match p ts with
    | none => choice ps ts
    | some result => some result

/-- A phrase or nothing. -/
def optional (p : Phrase) : Phrase := fun ts => some ((p ts).getD ([], ts))

/-- A phrase as often as it applies, but at most `fuel` times. -/
def manyUpTo (p : Phrase) : Nat → Phrase
  | 0 => fun ts => some ([], ts)
  | fuel + 1 => fun ts =>
    match p ts with
    | none => some ([], ts)
    | some (pieces, rest) => (manyUpTo p fuel rest).map fun (more, ts) => (pieces ++ more, ts)

/-- A phrase as often as it applies. -/
def many (p : Phrase) : Phrase := fun ts => manyUpTo p ts.length ts

/-- A phrase at least once. -/
def oneOrMore (p : Phrase) : Phrase := seq [p, many p]

/-- A phrase at least once, with a symbol between. -/
def separated (p : Phrase) (separator : String) : Phrase :=
  seq [p, many (seq [sym separator, p])]

/-- A phrase any number of times, with commas between. -/
def commaList (p : Phrase) : Phrase := optional (separated p ",")

/-- The pieces of a phrase as one node. -/
def node (kind : Kind) (p : Phrase) : Phrase := fun ts =>
  match p ts with
  | some (first :: rest, ts) => some ([.group kind first rest], ts)
  | _ => none

/-- The pieces of a phrase in a role. -/
def as (role : Role) (p : Phrase) : Phrase := fun ts =>
  (p ts).map fun (pieces, ts) => (pieces.map ({ · with role := some role }), ts)

/-- The piece of a phrase, grown by further phrases that take it in, at most `fuel` times. -/
def growUpTo (step : Piece → Phrase) (p : Piece) : Nat → Phrase
  | 0 => given p
  | fuel + 1 => fun ts =>
    match step p ts with
    | some ([next], ts) => growUpTo step next fuel ts
    | _ => some ([p], ts)

/-- The piece of a phrase, grown by further phrases that take it in. -/
def grow (p : Phrase) (step : Piece → Phrase) : Phrase := fun ts =>
  match p ts with
  | some ([piece], ts) => growUpTo step piece ts.length ts
  | _ => none

/-- A phrase that is followed by another one, which is not read. -/
def before (p next : Phrase) : Phrase := fun ts =>
  match p ts with
  | none => none
  | some (pieces, ts) => if (next ts).isSome then some (pieces, ts) else none

end Phrase

end Cohesion.Java
