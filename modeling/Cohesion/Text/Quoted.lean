/-
Quoted literals: a text shown on one line so that it can be read back.

A literal stands between single quotes, unless the text holds a single quote and no double one;
then double quotes save an escape.  Backslashes, the enclosing quote and the three common
controls get a backslash escape, other characters that do not print get the shortest of three
hexadecimal escapes, and all else stands as it is.

Main definitions:
* `hexDigits` — a number in hexadecimal, padded to a width;
* `quoted` — the literal of a text.
-/
import Cohesion.Text.PrintableChars

set_option autoImplicit false

namespace Cohesion.Text

/-- The last `width` hexadecimal digits of a number, in lower case. -/
def hexDigits : Nat → Nat → List Char
  | 0, _ => []
  | width + 1, n => hexDigits width (n / 16) ++ [Nat.digitChar (n % 16)]

/-- The enclosing quote that needs fewer escapes. -/
def quoteFor (cs : List Char) : Char :=
  if cs.contains '\'' && !cs.contains '"' then '"' else '\''

/-- A character inside a literal enclosed in `quote`. -/
def quotedChar (quote c : Char) : List Char :=
  if c == '\\' || c == quote then ['\\', c]
  else if c == '\n' then ['\\', 'n']
  else if c == '\r' then ['\\', 'r']
  else if c == '\t' then ['\\', 't']
  else if isPrintable c then [c]
  else if c.toNat < 0x100 then '\\' :: 'x' :: hexDigits 2 c.toNat
  else if c.toNat < 0x10000 then '\\' :: 'u' :: hexDigits 4 c.toNat
  else '\\' :: 'U' :: hexDigits 8 c.toNat

/-- The literal of a text. -/
def quoted (s : String) : String :=
  let cs := s.toList
  let quote := quoteFor cs
  String.ofList (quote :: cs.flatMap (quotedChar quote) ++ [quote])

end Cohesion.Text
