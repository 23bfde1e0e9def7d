/-
Receivers of invocations.

What stands before the dot of an invocation decides where the invoked method is looked for.  Only
plain receivers say enough: the current object, one of its fields, a name, or a name with dots.

Main definitions:
* `isSimpleName`, `isQualifiedName` — names without and with dots;
* `Receiver` — the kinds of receivers, `Receiver.ofText` tells them apart.
-/
import Cohesion.Text.Lines
import Cohesion.Text.WordChars

set_option autoImplicit false

namespace Cohesion

/-- A character that starts a name: a letter of ASCII, an underscore or a dollar sign. -/
def startsSimpleName (c : Char) : Bool := c.isAlpha || c == '_' || c == '$'

/-- A character inside a name: a word character of any script or a dollar sign. -/
def continuesSimpleName (c : Char) : Bool := Text.isWordChar c || c == '$'

/-- A name without dots. -/
def isSimpleName : List Char → Bool
  | [] => false
  | c :: rest => startsSimpleName c && rest.all continuesSimpleName

/-- A text without one line feed at its end. -/
def dropFinalNewline (cs : List Char) : List Char :=
  if cs.getLast? == some '\n' then cs.dropLast else cs

/-- Names with dots between them, at least two. -/
def isQualifiedName (cs : List Char) : Bool :=
  let parts := Text.splitAt '.' cs
  2 ≤ parts.length && parts.all isSimpleName

/-- What stands before the dot of an invocation. -/
inductive Receiver where
  /-- The current object, named or not. -/
  | self
  /-- The current object as one of its superclass. -/
  | parent
  /-- A field of the current object. -/
  | ownField (name : String)
  /-- A name. -/
  | simple (name : String)
  /-- A name with dots. -/
  | qualified (name : String)
  /-- Anything else. -/
  | expression
  deriving DecidableEq, Repr

/-- The receiver that a text is; a line feed at the end of a name is allowed. -/
def Receiver.ofText : Option String → Receiver
  | none => .self
  | some s =>
    if s == "this" then .self
    else if s == "super" then .parent
    else
      let cs := s.toList
      if "this.".toList.isPrefixOf cs then
        let field := cs.drop "this.".length
        if isSimpleName (dropFinalNewline field) then .ownField (String.ofList field)
        else .expression
      else if isSimpleName (dropFinalNewline cs) then .simple s
      else if isQualifiedName (dropFinalNewline cs) then .qualified s
      else .expression

end Cohesion
