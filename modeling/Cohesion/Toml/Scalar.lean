/-
Scalars of TOML documents: texts, numbers, dates and times.

The readers look at the characters still to be read, and give a value and the characters that
follow.  An error tells its cause and how many characters were left.

Main definitions:
* `Cause`, `Failure` — what can be wrong, and where;
* `readBasic`, `readLiteral` — texts in double and in single quotes;
* `readMoment?`, `readNumber?` — dates and times, and numbers.
-/
import Cohesion.Number.Reading
import Cohesion.Toml.Value

set_option autoImplicit false

namespace Cohesion.Toml

/-- What can be wrong with a document. -/
inductive Cause where
  /-- No statement starts here. -/
  | noStatement
  /-- A statement is followed by more on its line. -/
  | noLineEnd
  /-- The bracket after the name of a table is missing. -/
  | noTableEnd
  /-- The brackets after the name of a list of tables are missing. -/
  | noListEnd
  /-- A table is declared twice. -/
  | declaredTwice (key : List String)
  /-- A value is in the way. -/
  | overwritten
  /-- A list or table that is written as a value is added to. -/
  | immutable (key : List String)
  /-- A table that is declared is added to by keys with dots. -/
  | redefined (key : List String)
  /-- The equals sign after a key is missing. -/
  | noEquals
  /-- No key starts here. -/
  | noKey
  /-- A list does not end. -/
  | unclosedArray
  /-- A table that is written as a value does not end. -/
  | unclosedTable
  /-- A key is written twice in a table that is a value. -/
  | duplicateKey (key : String)
  /-- A backslash is followed by no escape. -/
  | badEscape
  /-- An escape does not have enough hexadecimal digits. -/
  | badHex
  /-- An escape stands for no character. -/
  | noCharacter
  /-- A text does not end. -/
  | unterminated
  /-- A control character stands in a text. -/
  | illegalCharacter (c : Char)
  /-- Something that must follow does not. -/
  | expected (mark : String)
  /-- A control character stands in a comment or a literal text. -/
  | invalidCharacter (c : Char)
  /-- No value starts here. -/
  | noValue
  /-- A date is not in the calendar. -/
  | badDate
  deriving DecidableEq, Repr

/-- A key with its parts in messages. -/
def keyLiteral (key : List String) : String :=
  match key with
  | [part] => "(" ++ Text.quoted part ++ ",)"
  | parts => "(" ++ ", ".intercalate (parts.map Text.quoted) ++ ")"

/-- The wording of a cause. -/
def Cause.message : Cause → String
  | .noStatement => "Invalid statement"
  | .noLineEnd => "Expected newline or end of document after a statement"
  | .noTableEnd => "Expected ']' at the end of a table declaration"
  | .noListEnd => "Expected ']]' at the end of an array declaration"
  | .declaredTwice key => "Cannot declare " ++ keyLiteral key ++ " twice"
  | .overwritten => "Cannot overwrite a value"
  | .immutable key => "Cannot mutate immutable namespace " ++ keyLiteral key
  | .redefined key => "Cannot redefine namespace " ++ keyLiteral key
  | .noEquals => "Expected '=' after a key in a key/value pair"
  | .noKey => "Invalid initial character for a key part"
  | .unclosedArray => "Unclosed array"
  | .unclosedTable => "Unclosed inline table"
  | .duplicateKey key => "Duplicate inline table key " ++ Text.quoted key
  | .badEscape => "Unescaped '\\' in a string"
  | .badHex => "Invalid hex value"
  | .noCharacter => "Escaped character is not a Unicode scalar value"
  | .unterminated => "Unterminated string"
  | .illegalCharacter c => "Illegal character " ++ Text.quoted c.toString
  | .expected mark => "Expected " ++ Text.quoted mark
  | .invalidCharacter c => "Found invalid character " ++ Text.quoted c.toString
  | .noValue => "Invalid value"
  | .badDate => "Invalid date or datetime"

/-- Why a document cannot be read. -/
inductive Failure where
  /-- The document is malformed where `left` characters are left. -/
  | malformed (cause : Cause) (left : Nat)
  /-- An integer has too many digits. -/
  | hugeInteger (digits : Nat)
  /-- Lists and tables are nested too deeply. -/
  | tooDeep
  deriving DecidableEq, Repr

/-- A value that was read and the characters that follow. -/
abbrev Rest (α : Type) := α × List Char

/-- The failure at the characters that are left. -/
def failAt {α : Type} (cause : Cause) (cs : List Char) : Except Failure α :=
  .error (.malformed cause cs.length)

/-! ### Blanks and comments -/

/-- A blank inside a line. -/
def isSpace (c : Char) : Bool := c == ' ' || c == '\t'

/-- A blank or a line end. -/
def isSpaceOrLine (c : Char) : Bool := isSpace c || c == '\n'

/-- The text without the blanks at its front. -/
def skipSpace (cs : List Char) : List Char := cs.dropWhile isSpace

/-- The text without the blanks and line ends at its front. -/
def skipLines (cs : List Char) : List Char := cs.dropWhile isSpaceOrLine

/-- A control character other than the tab. -/
def isControl (c : Char) : Bool := (c.toNat < 0x20 && c != '\t') || c.toNat == 0x7f

/-- A control character other than the tab and the line feed. -/
def isControlNotLine (c : Char) : Bool := isControl c && c != '\n'

/-- The text after a character repeated up to the characters that pass a test, if none of those
before is invalid. -/
def checkInvalid (invalid : Char → Bool) (count : Nat) (cs : List Char) : Except Failure Unit :=
  let valid := cs.takeWhile (!invalid ·)
  if valid.length < count then
    match cs.drop valid.length with
    | c :: rest => failAt (.invalidCharacter c) (c :: rest)
    | [] => .ok ()
  else .ok ()

/-- The text after a comment, if there is one. -/
def skipComment : List Char → Except Failure (List Char)
  | '#' :: cs => do
    let inside := cs.takeWhile (· != '\n')
    checkInvalid isControl inside.length cs
    return cs.drop inside.length
  | cs => .ok cs

/-- The text after blanks, line ends and comments, at most `fuel` of them in turn. -/
def skipBetween : Nat → List Char → Except Failure (List Char)
  | 0, cs => .ok cs
  | fuel + 1, cs => do
    let after ← skipComment (skipLines cs)
    if after.length == cs.length then return cs else skipBetween fuel after

/-! ### Texts -/

/-- The character of a hexadecimal escape with a number of digits. -/
def readHex (count : Nat) (cs : List Char) : Except Failure (Rest Char) :=
  let digits := cs.take count
  if digits.length != count ||
      !digits.all (fun c => c.isDigit || ('a' ≤ c.toLower && c.toLower ≤ 'f'))
  then failAt .badHex cs
  else
    let value := digits.foldl (fun n c =>
      16 * n + if c.isDigit then c.toNat - '0'.toNat else c.toLower.toNat - 'a'.toNat + 10) 0
    let after := cs.drop count
    if value.isValidChar then .ok (Char.ofNat value, after)
    else failAt .noCharacter after

/-- The characters of an escape, after its backslash. -/
def readEscape (multiline : Bool) (cs : List Char) : Except Failure (Rest (List Char)) :=
  match cs with
  | 'b' :: rest => .ok (['\x08'], rest)
  | 't' :: rest => .ok (['\t'], rest)
  | 'n' :: rest => .ok (['\n'], rest)
  | 'f' :: rest => .ok (['\x0c'], rest)
  | 'r' :: rest => .ok (['\r'], rest)
  | '"' :: rest => .ok (['"'], rest)
  | '\\' :: rest => .ok (['\\'], rest)
  | 'u' :: rest => (readHex 4 rest).map fun (c, rest) => ([c], rest)
  | 'U' :: rest => (readHex 8 rest).map fun (c, rest) => ([c], rest)
  | [] => failAt .badEscape []
  | c :: rest =>
    if multiline && c == '\n' then .ok ([], skipLines rest)
    else if multiline && isSpace c then
      match skipSpace rest with
      | [] => .ok ([], [])
      | '\n' :: rest => .ok ([], skipLines rest)
      | rest => failAt .badEscape rest
    else failAt .badEscape rest

/-- The rest of a text in double quotes, where `done` holds its characters read, last first. -/
def readBasicFrom (multiline : Bool) (done : List Char) :
    Nat → List Char → Except Failure (Rest (List Char))
  | 0, cs => failAt .unterminated cs
  | _ + 1, [] => failAt .unterminated []
  | fuel + 1, '"' :: rest =>
    if !multiline then .ok (done.reverse, rest)
    else match rest with
      | '"' :: '"' :: rest => .ok (done.reverse, rest)
      | rest => readBasicFrom multiline ('"' :: done) fuel rest
  | fuel + 1, '\\' :: rest => do
    let (cs, rest) ← readEscape multiline rest
    readBasicFrom multiline (cs.reverse ++ done) fuel rest
  | fuel + 1, c :: rest =>
    if isControl c && !(multiline && c == '\n') then failAt (.illegalCharacter c) (c :: rest)
    else readBasicFrom multiline (c :: done) fuel rest

/-- The rest of a text in double quotes, after the opening ones. -/
def readBasic (multiline : Bool) (cs : List Char) : Except Failure (Rest (List Char)) :=
  readBasicFrom multiline [] (cs.length + 1) cs

/-- The characters before a mark. -/
def untilMark (mark : List Char) : List Char → Option (List Char)
  | [] => none
  | c :: rest =>
    if mark.isPrefixOf (c :: rest) then some [] else (untilMark mark rest).map (c :: ·)

/-- The rest of a text in single quotes, after the opening ones. -/
def readLiteral (multiline : Bool) (cs : List Char) : Except Failure (Rest (List Char)) :=
  let mark := if multiline then "'''" else "'"
  match untilMark mark.toList cs with
  | none => failAt (.expected mark) []
  | some inside => do
    checkInvalid (if multiline then isControlNotLine else isControl) inside.length cs
    return (inside, cs.drop (inside.length + mark.length))

/-- Up to two more quotes belong to a text of several lines, if they follow its closing quotes. -/
def addQuotes (quote : Char) (text rest : List Char) : List Char × List Char :=
  let more := (rest.take 2).takeWhile (· == quote)
  (text ++ more, rest.drop more.length)

/-- A text of several lines, after its opening quotes. -/
def readMultiline (quote : Char) (cs : List Char) : Except Failure (Rest (List Char)) := do
  let cs := match cs with
    | '\n' :: rest => rest
    | cs => cs
  let (text, rest) ← if quote == '"' then readBasic true cs else readLiteral true cs
  return addQuotes quote text rest

/-! ### Dates and times -/

/-- A number of a fixed count of digits between bounds, and what follows. -/
def fixedDigits? (count least greatest : Nat) (cs : List Char) : Option (Nat × List Char) :=
  let digits := cs.take count
  let value := digitsValue digits
  if digits.length == count && digits.all Char.isDigit && least ≤ value && value ≤ greatest then
    some (value, cs.drop count)
  else none

/-- A character, and what follows. -/
def char? (c : Char) : List Char → Option (List Char)
  | [] => none
  | d :: rest => if d == c then some rest else none

/-- The millionths of a second after a point, of which six digits count, and what follows. -/
def readMicros (cs : List Char) : Nat × List Char :=
  match cs with
  | '.' :: rest =>
    let (digits, after) := readDigits rest
    if digits.isEmpty then (0, cs)
    else
      let six := digits.take 6
      (digitsValue (six ++ List.replicate (6 - six.length) '0'), after)
  | _ => (0, cs)

/-- A time of day, and what follows. -/
def readTime? (cs : List Char) : Option (TimeOfDay × List Char) := do
  let (hour, cs) ← fixedDigits? 2 0 23 cs
  let (minute, cs) ← fixedDigits? 2 0 59 (← char? ':' cs)
  let (second, cs) ← fixedDigits? 2 0 59 (← char? ':' cs)
  let (micros, cs) := readMicros cs
  some (⟨hour, minute, second, micros⟩, cs)

/-- A date, and what follows. -/
def readDate? (cs : List Char) : Option (Date × List Char) := do
  let (year, cs) ← fixedDigits? 4 0 9999 cs
  let (month, cs) ← fixedDigits? 2 1 12 (← char? '-' cs)
  let (day, cs) ← fixedDigits? 2 1 31 (← char? '-' cs)
  some (⟨year, month, day⟩, cs)

/-- The offset of local time in minutes, and what follows. -/
def readOffset (cs : List Char) : Option Int × List Char :=
  let numbers (cs : List Char) : Option (Int × List Char) := do
    let (hours, cs) ← fixedDigits? 2 0 23 cs
    let (minutes, cs) ← fixedDigits? 2 0 59 (← char? ':' cs)
    some ((60 * hours + minutes : Nat), cs)
  match cs with
  | 'Z' :: rest => (some 0, rest)
  | 'z' :: rest => (some 0, rest)
  | '+' :: rest => ((numbers rest).map fun (n, rest) => (some n, rest)).getD (none, cs)
  | '-' :: rest => ((numbers rest).map fun (n, rest) => (some (-n), rest)).getD (none, cs)
  | _ => (none, cs)

/-- The time that follows a date after a mark. -/
def timeAfterDate? (cs : List Char) : Option (TimeOfDay × List Char) :=
  match cs with
  | mark :: rest => if ['T', 't', ' '].contains mark then readTime? rest else none
  | [] => none

/-- A date with an optional time, and what follows; the date is not checked against the
calendar. -/
def readMoment? (cs : List Char) : Option (Moment × List Char) :=
  match readDate? cs with
  | none => (readTime? cs).map fun (t, rest) => (.time t, rest)
  | some (d, rest) =>
    match timeAfterDate? rest with
    | none => some (.date d, rest)
    | some (t, rest) =>
      let (offset, rest) := readOffset rest
      some (.dateTime d t offset, rest)

/-- A moment whose date, if it has one, is in the calendar. -/
def Moment.isValid : Moment → Bool
  | .date d => d.isValid
  | .time _ => true
  | .dateTime d _ _ => d.isValid

/-! ### Numbers -/

/-- The digits that follow a digit, an underscore being allowed before each of them: the digits
alone, and what follows. -/
def moreDigits (isDigit : Char → Bool) : List Char → List Char × List Char
  | [] => ([], [])
  | c :: rest =>
    if isDigit c then
      let (digits, after) := moreDigits isDigit rest
      (c :: digits, after)
    else if c == '_' && rest.head?.any isDigit then moreDigits isDigit rest
    else ([], c :: rest)

/-- The digits at the front of a text, an underscore being allowed between two of them: the digits
alone, and what follows. -/
def digitRun (isDigit : Char → Bool) (cs : List Char) : List Char × List Char :=
  if cs.head?.any isDigit then moreDigits isDigit cs else ([], cs)

/-- The value of digits in a base. -/
def valueInBase (base : Nat) (digits : List Char) : Nat :=
  digits.foldl (fun n c =>
    base * n + if c.isDigit then c.toNat - '0'.toNat else c.toLower.toNat - 'a'.toNat + 10) 0

/-- A number in base 16, 2 or 8 after its mark, and what follows. -/
def readBased? (cs : List Char) : Option (Nat × List Char) :=
  let read (base : Nat) (isDigit : Char → Bool) (rest : List Char) : Option (Nat × List Char) :=
    match digitRun isDigit rest with
    | ([], _) => none
    | (digits, after) => some (valueInBase base digits, after)
  match cs with
  | '0' :: 'x' :: rest => read 16 (fun c => c.isDigit || ('a' ≤ c.toLower && c.toLower ≤ 'f')) rest
  | '0' :: 'b' :: rest => read 2 (fun c => c == '0' || c == '1') rest
  | '0' :: 'o' :: rest => read 8 (fun c => '0' ≤ c && c ≤ '7') rest
  | _ => none

/-- The digits after a decimal point, and what follows. -/
def readFraction (cs : List Char) : List Char × List Char :=
  match cs with
  | '.' :: rest =>
    match digitRun Char.isDigit rest with
    | ([], _) => ([], cs)
    | found => found
  | _ => ([], cs)

/-- An exponent after its mark, and what follows. -/
def readPower (cs : List Char) : Option Int × List Char :=
  match cs with
  | mark :: rest =>
    if mark == 'e' || mark == 'E' then
      let (negative, rest) := readSign rest
      match digitRun Char.isDigit rest with
      | ([], _) => (none, cs)
      | (digits, after) =>
        let n : Int := digitsValue digits
        (some (if negative then -n else n), after)
    else (none, cs)
  | [] => (none, cs)

/-- The digits of a whole number without needless zeros in front, and what follows. -/
def wholeDigits? (cs : List Char) : Option (List Char × List Char) :=
  match cs with
  | '0' :: rest => some (['0'], rest)
  | _ =>
    match digitRun Char.isDigit cs with
    | ([], _) => none
    | found => some found

/-- The most digits that an integer may have. -/
def digitLimit : Nat := 4300

/-- A number in base ten, and what follows. -/
def readDecimal? (cs : List Char) : Option (Except Failure Toml × List Char) := do
  let (negative, cs) := readSign cs
  let (whole, cs) ← wholeDigits? cs
  let (decimals, cs) := readFraction cs
  let (power, cs) := readPower cs
  if decimals.isEmpty && power.isNone then
    let n : Int := digitsValue whole
    let value : Except Failure Toml :=
      if digitLimit < whole.length then .error (.hugeInteger whole.length)
      else .ok (.int (if negative then -n else n))
    some (value, cs)
  else
    let value :=
      decimalReal negative (digitsValue (whole ++ decimals)) (power.getD 0 - decimals.length)
    some (.ok (.real value), cs)

/-- A number that has a name, and what follows. -/
def readNamed? (cs : List Char) : Option (Binary64 × List Char) :=
  let (negative, rest) := readSign cs
  if rest.take 3 == "inf".toList then some (.infinite negative, rest.drop 3)
  else if rest.take 3 == "nan".toList then some (.nan, rest.drop 3)
  else none

/-- A number, and what follows. -/
def readNumber? (cs : List Char) : Option (Except Failure Toml × List Char) :=
  match readBased? cs with
  | some (n, rest) => some (.ok (.int n), rest)
  | none =>
    match readDecimal? cs with
    | some found => some found
    | none => (readNamed? cs).map fun (x, rest) => (.ok (.real x), rest)

end Cohesion.Toml
