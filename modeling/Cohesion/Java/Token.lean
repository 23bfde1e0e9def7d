/-
Tokens of Java sources.

A source is a sequence of tokens, each with the blanks and comments before it, and the blanks and
comments at the end.  A closing angle bracket is always a token of its own, so that nested type
arguments need no special care.

Main definitions:
* `Lead` — blanks and comments;
* `Token` — the tokens;
* `Source` — the tokens of a text, `Source.ofText?` finds them.
-/
import Cohesion.Java.Node

set_option autoImplicit false

namespace Cohesion.Java

/-- Blanks and comments before a token. -/
structure Lead where
  /-- All of the text. -/
  text : List Char := []
  /-- The comments in it. -/
  comments : List Node := []
  deriving Repr, Inhabited

/-- What a token is. -/
inductive TokenKind where
  /-- A name or a keyword. -/
  | word
  /-- A number, a character or a text. -/
  | literal
  /-- An operator or a separator. -/
  | symbol
  deriving DecidableEq, Repr

/-- A token. -/
structure Token where
  /-- What stands before it. -/
  lead : Lead
  /-- What it is. -/
  kind : TokenKind
  /-- The text. -/
  text : List Char
  /-- The line of its first character. -/
  startLine : Nat
  /-- The line of its last character. -/
  endLine : Nat
  deriving Repr

/-- The tokens of a text. -/
structure Source where
  /-- The tokens. -/
  tokens : List Token
  /-- What stands after the last token. -/
  trailing : Lead
  deriving Repr

/-! ### Characters -/

/-- Blanks: the space, and the controls from the tab to the carriage return. -/
def isBlank (c : Char) : Bool := c == ' ' || ('\t' ≤ c && c ≤ '\r')

/-- A character that starts a name. -/
def startsName (c : Char) : Bool := c.isAlpha || c == '_' || c == '$' || 0x80 ≤ c.toNat

/-- A character inside a name. -/
def continuesName (c : Char) : Bool := startsName c || c.isDigit

/-- The line after some characters. -/
def lineAfter (line : Nat) (cs : List Char) : Nat := line + cs.count '\n'

/-! ### Comments -/

/-- The rest of a comment up to its closing mark, and what follows. -/
def untilCommentEnd : List Char → Option (List Char × List Char)
  | [] => none
  | '*' :: '/' :: rest => some (['*', '/'], rest)
  | c :: rest => (untilCommentEnd rest).map fun (inside, rest) => (c :: inside, rest)

/-- A comment at the front of a text, and what follows. -/
def comment? : List Char → Option (List Char × List Char)
  | '/' :: '/' :: rest =>
    some ('/' :: '/' :: rest.takeWhile (· != '\n'), rest.dropWhile (· != '\n'))
  | '/' :: '*' :: rest =>
    (untilCommentEnd rest).map fun (inside, rest) => ('/' :: '*' :: inside, rest)
  | _ => none

/-- The node of a comment that starts on a line. -/
def commentNode (line : Nat) (text : List Char) : Node :=
  ⟨none, .comment, text, line, lineAfter line text, []⟩

/-- The blanks and comments at the front of a text, in at most `fuel` pieces, and the rest. -/
def leadFrom (line : Nat) (cs : List Char) : Nat → Lead × List Char
  | 0 => ({}, cs)
  | fuel + 1 =>
    match comment? cs with
    | some (text, rest) =>
      let (lead, rest) := leadFrom (lineAfter line text) rest fuel
      (⟨text ++ lead.text, commentNode line text :: lead.comments⟩, rest)
    | none =>
      match cs with
      | [] => ({}, [])
      | c :: rest =>
        if isBlank c then
          let (lead, rest) := leadFrom (lineAfter line [c]) rest fuel
          ({ lead with text := c :: lead.text }, rest)
        else ({}, cs)

/-! ### Literals -/

/-- The rest of a literal up to the closing mark, and what follows; a backslash takes the next
character along. -/
def untilQuote (quote : Char) : List Char → Option (List Char × List Char)
  | [] => none
  | '\\' :: c :: rest =>
    (untilQuote quote rest).map fun (inside, rest) => ('\\' :: c :: inside, rest)
  | c :: rest =>
    if c == quote then some ([c], rest)
    else (untilQuote quote rest).map fun (inside, rest) => (c :: inside, rest)

/-- The rest of a text block up to three quotes in a row, and what follows. -/
def untilTripleQuote : List Char → Option (List Char × List Char)
  | [] => none
  | '\\' :: c :: rest =>
    (untilTripleQuote rest).map fun (inside, rest) => ('\\' :: c :: inside, rest)
  | '"' :: '"' :: '"' :: rest => some (['"', '"', '"'], rest)
  | c :: rest => (untilTripleQuote rest).map fun (inside, rest) => (c :: inside, rest)

/-- The characters of a number after its first one, and what follows: letters, digits, underscores
and points, and a sign after an exponent mark. -/
def untilNumberEnd (hexadecimal : Bool) : List Char → List Char × List Char
  | [] => ([], [])
  | mark :: sign :: rest =>
    let marks := if hexadecimal then ['p', 'P'] else ['e', 'E']
    if marks.contains mark && (sign == '+' || sign == '-') then
      let (inside, rest) := untilNumberEnd hexadecimal rest
      (mark :: sign :: inside, rest)
    else if mark.isAlphanum || mark == '_' || mark == '.' then
      let (inside, rest) := untilNumberEnd hexadecimal (sign :: rest)
      (mark :: inside, rest)
    else ([], mark :: sign :: rest)
  | [c] => if c.isAlphanum || c == '_' || c == '.' then ([c], []) else ([], [c])

/-- A number at the front of a text, and what follows. -/
def number (cs : List Char) : List Char × List Char :=
  match cs with
  | '0' :: 'x' :: _ => untilNumberEnd true cs
  | '0' :: 'X' :: _ => untilNumberEnd true cs
  | _ => untilNumberEnd false cs

/-! ### Tokens -/

/-- The symbols of more than one character that are one token. -/
def longSymbols : List (List Char) :=
  [['+', '+'], ['-', '-'], ['-', '>'], [':', ':'], ['.', '.', '.']]

/-- A symbol at the front of a text. -/
def symbolAt (cs : List Char) : List Char :=
  (longSymbols.find? (·.isPrefixOf cs)).getD (cs.take 1)

/-- A token at the front of a text that does not start with a blank or a comment, and what
follows. -/
def tokenAt? (cs : List Char) : Option (TokenKind × List Char × List Char) :=
  match cs with
  | [] => none
  | '"' :: '"' :: '"' :: rest =>
    (untilTripleQuote rest).map fun (inside, rest) => (.literal, '"' :: '"' :: '"' :: inside, rest)
  | '"' :: rest => (untilQuote '"' rest).map fun (inside, rest) => (.literal, '"' :: inside, rest)
  | '\'' :: rest =>
    (untilQuote '\'' rest).map fun (inside, rest) => (.literal, '\'' :: inside, rest)
  | c :: rest =>
    if startsName c then some (.word, cs.takeWhile continuesName, cs.dropWhile continuesName)
    else if c.isDigit || (c == '.' && rest.head?.any (·.isDigit)) then
      let (text, rest) := number cs
      some (.literal, text, rest)
    else
      let text := symbolAt cs
      some (.symbol, text, cs.drop text.length)

/-- The tokens of a text that starts on a line, at most `fuel` of them. -/
def tokensFrom (line : Nat) (cs : List Char) : Nat → Option Source
  | 0 => none
  | fuel + 1 =>
    let (lead, rest) := leadFrom line cs (cs.length + 1)
    match rest with
    | [] => some ⟨[], lead⟩
    | _ :: _ => do
      let startLine := lineAfter line lead.text
      let (kind, text, rest) ← tokenAt? rest
      let endLine := lineAfter startLine text
      let source ← tokensFrom endLine rest fuel
      some { source with tokens := ⟨lead, kind, text, startLine, endLine⟩ :: source.tokens }

/-- A text without a byte order mark at its front. -/
def dropByteOrderMark : List Char → List Char
  | '\ufeff' :: rest => rest
  | cs => cs

/-- The tokens of a text; a literal or a comment that does not end has none. -/
def Source.ofText? (cs : List Char) : Option Source :=
  tokensFrom 1 (dropByteOrderMark cs) (cs.length + 1)

end Cohesion.Java
