/-
Reading JSON documents.

A document is one value surrounded by white space.  Beyond the standard, the names `NaN`,
`Infinity` and `-Infinity` stand for the numbers that are not finite.  A number with a decimal
point or an exponent is a floating-point number, any other one an integer.  Every error has a
cause and a position, counted in characters.

The reader is a recursive descent on the list of characters.  Its recursion is bounded by twice the
length of the text: every value takes at least one character, and a list or an object takes two
calls for each of its levels and one for each of its items.  How many containers may be nested is
not for the reader to say: it depends on the room that the machine has, and is given to the reader.

Half of a surrogate pair that an escape spells alone is no character, and texts are lists of
characters.  It is read as the replacement character, so names that differ only in such halves are
not told apart, and documents with such names are left out of what is said about names.

Main definitions:
* `Json.Cause` — what can be wrong with a document;
* `Json.ReadError` — why a document cannot be read, with `ReadError.message`;
* `Json.readString` — the characters of a quoted string;
* `Json.readNumber?` — a number;
* `Json.parse` — the value of a document.
-/
import Cohesion.Json.Value
import Cohesion.Number.Reading
import Cohesion.Text.Lines

set_option autoImplicit false

namespace Cohesion.Json

open Text

/-- A container of values. -/
inductive Container where
  /-- A list of values. -/
  | array
  /-- A list of members. -/
  | object
  deriving DecidableEq, Repr

/-- What can be wrong with a document. -/
inductive Cause where
  /-- The document starts with a byte order mark. -/
  | byteOrderMark
  /-- No value starts here. -/
  | noValue
  /-- No member name starts here. -/
  | noName
  /-- The colon after a member name is missing. -/
  | noColon
  /-- The comma between two items is missing. -/
  | noComma
  /-- Text follows the value. -/
  | extraData
  /-- A control character stands in a string. -/
  | controlCharacter
  /-- The string that starts here does not end. -/
  | unterminatedString
  /-- A backslash is followed by no escape. -/
  | badEscape
  /-- A hexadecimal escape does not have four digits. -/
  | badHexEscape
  deriving DecidableEq, Repr

/-- The wording of a cause. -/
def Cause.message : Cause → String
  | .byteOrderMark => "Unexpected UTF-8 BOM (decode using utf-8-sig)"
  | .noValue => "Expecting value"
  | .noName => "Expecting property name enclosed in double quotes"
  | .noColon => "Expecting ':' delimiter"
  | .noComma => "Expecting ',' delimiter"
  | .extraData => "Extra data"
  | .controlCharacter => "Invalid control character at"
  | .unterminatedString => "Unterminated string starting at"
  | .badEscape => "Invalid \\escape"
  | .badHexEscape => "Invalid \\uXXXX escape"

/-- Why a document cannot be read. -/
inductive ReadError where
  /-- The text is no document, from a position on. -/
  | malformed (cause : Cause) (position : Nat)
  /-- An integer has too many digits. -/
  | hugeInteger (digits : Nat)
  /-- Containers are nested too deeply. -/
  | tooDeep (container : Container)
  deriving DecidableEq, Repr

/-- The most digits that an integer may have. -/
def digitLimit : Nat := 4300

/-- The most containers that may be nested where nothing else is known of the machine. -/
def depthLimit : Nat := 980

/-- The wording of an error in the document `text`. -/
def ReadError.message (text : List Char) : ReadError → String
  | .malformed cause position =>
    let place := placeAt text position
    s!"{cause.message}: line {place.line} column {place.column} (char {position})"
  | .hugeInteger digits => hugeIntegerMessage digitLimit digits
  | .tooDeep .array =>
    "maximum recursion depth exceeded while decoding a JSON array from a unicode string"
  | .tooDeep .object =>
    "maximum recursion depth exceeded while decoding a JSON object from a unicode string"

/-- The rest of a text and its position. -/
structure Cursor where
  /-- The characters still to be read. -/
  rest : List Char
  /-- The number of characters read. -/
  position : Nat

/-- The cursor after `count` more characters. -/
def Cursor.advance (c : Cursor) (count : Nat) : Cursor :=
  ⟨c.rest.drop count, c.position + count⟩

/-- White space between the parts of a document. -/
def isSpace (c : Char) : Bool := c == ' ' || c == '\t' || c == '\n' || c == '\r'

/-- The cursor after the white space that follows. -/
def Cursor.skipSpace (c : Cursor) : Cursor :=
  c.advance (c.rest.takeWhile isSpace).length

/-- An error at a position. -/
def fail {α : Type} (cause : Cause) (position : Nat) : Except ReadError α :=
  .error (.malformed cause position)

/-- The value of a hexadecimal digit. -/
def hexValue? (c : Char) : Option Nat :=
  if c.isDigit then some (c.toNat - '0'.toNat)
  else if 'a' ≤ c && c ≤ 'f' then some (c.toNat - 'a'.toNat + 10)
  else if 'A' ≤ c && c ≤ 'F' then some (c.toNat - 'A'.toNat + 10)
  else none

/-- The number that hexadecimal digits spell. -/
def hexNumber? (cs : List Char) : Option Nat :=
  cs.foldlM (fun n c => (hexValue? c).map (16 * n + ·)) 0

/-- The character of a one-letter escape. -/
def simpleEscape? : Char → Option Char
  | '"' => some '"'
  | '\\' => some '\\'
  | '/' => some '/'
  | 'b' => some '\x08'
  | 'f' => some '\x0c'
  | 'n' => some '\n'
  | 'r' => some '\r'
  | 't' => some '\t'
  | _ => none

/-- The second half of a surrogate pair, as an escape at the front of a text that does not end
right after it. -/
def lowSurrogate? : List Char → Option Nat
  | '\\' :: 'u' :: a :: b :: c :: d :: _ :: _ =>
    match hexNumber? [a, b, c, d] with
    | some n => if 0xdc00 ≤ n && n < 0xe000 then some n else none
    | none => none
  | _ => none

/-- An escape that looks like the second half of a surrogate pair but has no four digits. -/
def brokenPair : List Char → Bool
  | '\\' :: 'u' :: a :: b :: c :: d :: _ :: _ => (hexNumber? [a, b, c, d]).isNone
  | _ => false

/-- The characters of the string that started at `start`, up to its closing quote, read with at
most `fuel` steps; `done` holds the characters read, last first.  Half of a surrogate pair that
stands alone becomes the replacement character. -/
def readString (start : Nat) : Nat → List Char → Cursor → Except ReadError (String × Cursor)
  | 0, _, _ => fail .unterminatedString start
  | fuel + 1, done, ⟨cs, position⟩ =>
    match cs with
    | [] => fail .unterminatedString start
    | '"' :: rest => .ok (String.ofList done.reverse, ⟨rest, position + 1⟩)
    | '\\' :: 'u' :: rest =>
      if (rest.drop 4).isEmpty then fail .badHexEscape (position + 1)
      else match hexNumber? (rest.take 4) with
        | none => fail .badHexEscape (position + 1)
        | some n =>
          let rest := rest.drop 4
          if 0xd800 ≤ n && n < 0xdc00 then
            match lowSurrogate? rest with
            | some m =>
              let c := Char.ofNat (0x10000 + (n - 0xd800) * 0x400 + (m - 0xdc00))
              readString start fuel (c :: done) ⟨rest.drop 6, position + 12⟩
            | none =>
              if brokenPair rest then fail .badHexEscape (position + 7)
              else readString start fuel ('\ufffd' :: done) ⟨rest, position + 6⟩
          else
            let c := if 0xdc00 ≤ n && n < 0xe000 then '\ufffd' else Char.ofNat n
            readString start fuel (c :: done) ⟨rest, position + 6⟩
    | '\\' :: c :: rest =>
      match simpleEscape? c with
      | some e => readString start fuel (e :: done) ⟨rest, position + 2⟩
      | none => fail .badEscape position
    | ['\\'] => fail .unterminatedString start
    | c :: rest =>
      if c.toNat < 0x20 then fail .controlCharacter position
      else readString start fuel (c :: done) ⟨rest, position + 1⟩

/-- The characters of the integer part of a number: a single zero, or digits without a leading
zero. -/
def integerDigits : List Char → List Char
  | '0' :: _ => ['0']
  | cs => (readDigits cs).1

/-- The characters of a decimal part: a point and at least one digit. -/
def decimalPart : List Char → List Char
  | '.' :: rest => if (readDigits rest).1.isEmpty then [] else '.' :: (readDigits rest).1
  | _ => []

/-- The characters of an exponent: its mark, an optional sign and at least one digit. -/
def exponentPart : List Char → List Char
  | mark :: rest =>
    if mark == 'e' || mark == 'E' then
      let sign := match rest with
        | '+' :: _ => ['+']
        | '-' :: _ => ['-']
        | _ => []
      let digits := (readDigits (rest.drop sign.length)).1
      if digits.isEmpty then [] else mark :: sign ++ digits
    else []
  | [] => []

/-- A number at the front of a text and the count of its characters. -/
def readNumber? (cs : List Char) : Option (Except ReadError Json × Nat) :=
  let (sign, cs) := match cs with
    | '-' :: rest => (['-'], rest)
    | cs => ([], cs)
  let whole := integerDigits cs
  if whole.isEmpty then none
  else
    let decimals := decimalPart (cs.drop whole.length)
    let exponent := exponentPart (cs.drop (whole.length + decimals.length))
    let length := sign.length + whole.length + decimals.length + exponent.length
    let negative := !sign.isEmpty
    let value : Except ReadError Json :=
      if decimals.isEmpty && exponent.isEmpty then
        if digitLimit < whole.length then .error (.hugeInteger whole.length)
        else
          let n : Int := digitsValue whole
          .ok (.int (if negative then -n else n))
      else .ok (.real ((unsignedReal? negative (whole ++ decimals ++ exponent)).getD .nan))
    some (value, length)

/-- The values that have a name. -/
def namedValues : List (List Char × Json) :=
  [("null".toList, .null), ("true".toList, .bool true), ("false".toList, .bool false),
    ("NaN".toList, .real .nan), ("Infinity".toList, .real (.infinite false)),
    ("-Infinity".toList, .real (.infinite true))]

/-- A value that is neither a string nor a container. -/
def readScalar (c : Cursor) : Except ReadError (Json × Cursor) :=
  match namedValues.find? (fun (name, _) => name.isPrefixOf c.rest) with
  | some (name, value) => .ok (value, c.advance name.length)
  | none =>
    match readNumber? c.rest with
    | some (.ok value, length) => .ok (value, c.advance length)
    | some (.error e, _) => .error e
    | none => fail .noValue c.position

mutual

/-- The value at the cursor, which stands inside `depth` containers, where `limit` of them may be
nested. -/
def readValue (limit : Nat) : Nat → Nat → Cursor → Except ReadError (Json × Cursor)
  | 0, _, c => fail .noValue c.position
  | fuel + 1, depth, c =>
    match c.rest with
    | '"' :: _ => do
      let (s, c) ← readString c.position fuel [] (c.advance 1)
      .ok (.str s, c)
    | '[' :: _ =>
      if limit ≤ depth then .error (.tooDeep .array)
      else
        let c := (c.advance 1).skipSpace
        match c.rest with
        | ']' :: _ => .ok (.arr [], c.advance 1)
        | _ => do
          let (items, c) ← readItems limit fuel (depth + 1) c
          .ok (.arr items, c)
    | '\x7b' :: _ =>
      if limit ≤ depth then .error (.tooDeep .object)
      else
        let c := (c.advance 1).skipSpace
        match c.rest with
        | '\x7d' :: _ => .ok (.obj [], c.advance 1)
        | _ => do
          let (members, c) ← readMembers limit fuel (depth + 1) c
          .ok (.obj (ofMembers members), c)
    | _ => readScalar c

/-- The values of a list from the cursor to its closing bracket. -/
def readItems (limit : Nat) : Nat → Nat → Cursor → Except ReadError (List Json × Cursor)
  | 0, _, c => fail .noValue c.position
  | fuel + 1, depth, c => do
    let (value, c) ← readValue limit fuel depth c
    let c := c.skipSpace
    match c.rest with
    | ']' :: _ => .ok ([value], c.advance 1)
    | ',' :: _ =>
      let (values, c) ← readItems limit fuel depth (c.advance 1).skipSpace
      .ok (value :: values, c)
    | _ => fail .noComma c.position

/-- The members of an object from the cursor to its closing brace. -/
def readMembers (limit : Nat) :
    Nat → Nat → Cursor → Except ReadError (List (String × Json) × Cursor)
  | 0, _, c => fail .noName c.position
  | fuel + 1, depth, c =>
    match c.rest with
    | '"' :: _ => do
      let (name, c) ← readString c.position fuel [] (c.advance 1)
      let c := c.skipSpace
      match c.rest with
      | ':' :: _ =>
        let (value, c) ← readValue limit fuel depth (c.advance 1).skipSpace
        let c := c.skipSpace
        match c.rest with
        | '\x7d' :: _ => .ok ([(name, value)], c.advance 1)
        | ',' :: _ =>
          let (members, c) ← readMembers limit fuel depth (c.advance 1).skipSpace
          .ok ((name, value) :: members, c)
        | _ => fail .noComma c.position
      | _ => fail .noColon c.position
    | _ => fail .noName c.position

end

/-- The value of a document, where `limit` containers may be nested. -/
def parse (text : List Char) (limit : Nat := depthLimit) : Except ReadError Json :=
  match text with
  | '\ufeff' :: _ => fail .byteOrderMark 0
  | _ => do
    let (value, c) ← readValue limit (2 * text.length + 2) 0 (Cursor.mk text 0).skipSpace
    let c := c.skipSpace
    if c.rest.isEmpty then .ok value else fail .extraData c.position

end Cohesion.Json
