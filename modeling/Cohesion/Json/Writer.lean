/-
Writing JSON documents.

A document is written in ASCII alone: every other character becomes a hexadecimal escape, one
beyond the basic plane a pair of them.  Containers are laid out with one item a line, indented by
their depth, or all on one line.

Main definitions:
* `Json.writeString` — a string with its quotes and escapes;
* `Json.Layout` — on one line, or indented;
* `Json.write` — a value in a layout;
* `Json.integersFit` — the values whose integers can be written.
-/
import Cohesion.Json.Value

set_option autoImplicit false

namespace Cohesion.Json

open Text

/-- A hexadecimal escape of a 16-bit unit. -/
def unitEscape (n : Nat) : List Char := '\\' :: 'u' :: hexDigits 4 n

/-- A character inside a string. -/
def writeChar (c : Char) : List Char :=
  if c == '"' then ['\\', '"']
  else if c == '\\' then ['\\', '\\']
  else if c == '\n' then ['\\', 'n']
  else if c == '\r' then ['\\', 'r']
  else if c == '\t' then ['\\', 't']
  else if c == '\x0c' then ['\\', 'f']
  else if c == '\x08' then ['\\', 'b']
  else if 0x20 ≤ c.toNat && c.toNat < 0x7f then [c]
  else if c.toNat < 0x10000 then unitEscape c.toNat
  else
    let n := c.toNat - 0x10000
    unitEscape (0xd800 + n / 0x400) ++ unitEscape (0xdc00 + n % 0x400)

/-- A string with its quotes and escapes. -/
def writeString (s : String) : List Char :=
  '"' :: s.toList.flatMap writeChar ++ ['"']

/-- How containers are laid out. -/
inductive Layout where
  /-- All on one line. -/
  | oneLine
  /-- One item a line, each level indented by `width` more spaces. -/
  | indented (width : Nat)

/-- What stands before an item at a depth, or before the closing bracket. -/
def Layout.lineStart : Layout → Nat → List Char
  | .oneLine, _ => []
  | .indented width, depth => '\n' :: List.replicate (width * depth) ' '

/-- What stands after the comma between two items. -/
def Layout.gap : Layout → List Char
  | .oneLine => [' ']
  | .indented _ => []

mutual

/-- A value at a depth. -/
def writeAt (layout : Layout) (depth : Nat) : Json → List Char
  | .null => "null".toList
  | .bool true => "true".toList
  | .bool false => "false".toList
  | .int n => (toString n).toList
  | .real x => (NumberNotation.json.write x).toList
  | .str s => writeString s
  | .arr [] => "[]".toList
  | .arr (v :: rest) =>
    '[' :: layout.lineStart (depth + 1) ++ writeAt layout (depth + 1) v ++
      writeItems layout (depth + 1) rest ++ layout.lineStart depth ++ [']']
  | .obj [] => ['\x7b', '\x7d']
  | .obj ((n, v) :: rest) =>
    '\x7b' :: layout.lineStart (depth + 1) ++ writeString n ++ ':' :: ' ' ::
      writeAt layout (depth + 1) v ++ writeMembers layout (depth + 1) rest ++
      layout.lineStart depth ++ ['\x7d']

/-- The items after the first one, each behind a comma. -/
def writeItems (layout : Layout) (depth : Nat) : List Json → List Char
  | [] => []
  | v :: rest =>
    ',' :: layout.gap ++ layout.lineStart depth ++ writeAt layout depth v ++
      writeItems layout depth rest

/-- The members after the first one, each behind a comma. -/
def writeMembers (layout : Layout) (depth : Nat) : List (String × Json) → List Char
  | [] => []
  | (n, v) :: rest =>
    ',' :: layout.gap ++ layout.lineStart depth ++ writeString n ++ ':' :: ' ' ::
      writeAt layout depth v ++ writeMembers layout depth rest

end

mutual

/-- All integers of a value have few enough digits to be written. -/
def integersFit : Json → Bool
  | .int n => isWritable n
  | .arr items => itemsFit items
  | .obj members => membersFit members
  | _ => true

/-- All integers of a list of values have few enough digits. -/
def itemsFit : List Json → Bool
  | [] => true
  | v :: rest => integersFit v && itemsFit rest

/-- All integers of the values of members have few enough digits. -/
def membersFit : List (String × Json) → Bool
  | [] => true
  | (_, v) :: rest => integersFit v && membersFit rest

end

/-- A value as a document. -/
def write (layout : Layout) (v : Json) : String :=
  String.ofList (writeAt layout 0 v)

end Cohesion.Json
