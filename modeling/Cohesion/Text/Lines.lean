/-
Lines of a text.

A line ends with a line feed, a carriage return, or both in this order.  Reading a text turns
every line end into a line feed; positions in a text are told by line and column.

Main definitions:
* `normalizeNewlines` — every line end as a line feed;
* `splitLines` — the lines of a text, without their ends;
* `Place` — line and column of a position, both from one;
* `afterLast` — the part after the last occurrence of a character.
-/

set_option autoImplicit false

namespace Cohesion.Text

/-- Every line end as a line feed. -/
def normalizeNewlines : List Char → List Char
  | [] => []
  | '\r' :: '\n' :: rest => '\n' :: normalizeNewlines rest
  | '\r' :: rest => '\n' :: normalizeNewlines rest
  | c :: rest => c :: normalizeNewlines rest

/-- Line and column of a position, both from one. -/
structure Place where
  /-- The line. -/
  line : Nat
  /-- The column. -/
  column : Nat
  deriving DecidableEq, Repr

/-- The place that comes after the given characters, starting from `place`. -/
def Place.after (place : Place) : List Char → Place
  | [] => place
  | c :: rest =>
    Place.after
      (if c == '\n' then ⟨place.line + 1, 1⟩ else ⟨place.line, place.column + 1⟩) rest

/-- The place of the character at `position` in a text. -/
def placeAt (cs : List Char) (position : Nat) : Place :=
  Place.after ⟨1, 1⟩ (cs.take position)

/-- The part of a text after the last occurrence of a character; the whole text if it has none. -/
def afterLast (sep : Char) (s : String) : String :=
  String.ofList (s.toList.reverse.takeWhile (· != sep)).reverse

/-- The text `part` stands somewhere in another text. -/
def isPartOf (part : List Char) : List Char → Bool
  | [] => part.isEmpty
  | c :: rest => part.isPrefixOf (c :: rest) || isPartOf part rest

/-- The pieces of a list between occurrences of a separator. -/
def splitAt (sep : Char) : List Char → List (List Char)
  | [] => [[]]
  | c :: rest =>
    if c == sep then [] :: splitAt sep rest
    else match splitAt sep rest with
      | piece :: pieces => (c :: piece) :: pieces
      | [] => [[c]]

/-- The lines of a text whose line ends are line feeds; no line follows the last line feed. -/
def splitLines (cs : List Char) : List (List Char) :=
  let pieces := splitAt '\n' cs
  if pieces.getLast? == some [] then pieces.dropLast else pieces

end Cohesion.Text
