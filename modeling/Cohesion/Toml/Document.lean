/-
Reading TOML documents.

A document is a sequence of statements, one on a line.  A statement sets a key of the current table
or declares the table that is current from then on.  Marks remember which tables were declared and
which lists and tables were written as values, so that nothing is declared or added to twice.

Main definitions:
* `readKey`, `readValue` — keys and values;
* `Marks` — what has been declared;
* `Table.modifyNest?` — a table changed somewhere inside;
* `Toml.parse` — the table of a document;
* `Toml.ReadError.message` — the report of an error.
-/
import Cohesion.Text.Lines
import Cohesion.Toml.Scalar

set_option autoImplicit false

namespace Cohesion.Toml

/-! ### Keys -/

/-- A character of a key that needs no quotes. -/
def isBare (c : Char) : Bool := c.isAlphanum || c == '-' || c == '_'

/-- A part of a key. -/
def readKeyPart (cs : List Char) : Except Failure (Rest String) :=
  match cs with
  | '\'' :: rest => (readLiteral false rest).map fun (text, rest) => (String.ofList text, rest)
  | '"' :: rest => (readBasic false rest).map fun (text, rest) => (String.ofList text, rest)
  | _ =>
    match cs.takeWhile isBare with
    | [] => failAt .noKey cs
    | part => .ok (String.ofList part, cs.dropWhile isBare)

/-- The parts of a key, at most `fuel` of them, and the blanks after it. -/
def readKeyFrom : Nat → List Char → Except Failure (Rest (List String))
  | 0, cs => failAt .noKey cs
  | fuel + 1, cs => do
    let (part, rest) ← readKeyPart cs
    match skipSpace rest with
    | '.' :: rest =>
      let (parts, rest) ← readKeyFrom fuel (skipSpace rest)
      return (part :: parts, rest)
    | rest => return ([part], rest)

/-- A key: its parts with dots between, and the blanks after it. -/
def readKey (cs : List Char) : Except Failure (Rest (List String)) := readKeyFrom (cs.length + 1) cs

/-- A key and the equals sign, with the blanks around them. -/
def readKeyEquals (cs : List Char) : Except Failure (Rest (List String)) := do
  let (key, rest) ← readKey cs
  match rest with
  | '=' :: rest => return (key, skipSpace rest)
  | _ => failAt .noEquals rest

/-! ### Tables -/

/-- A table with the table under a key changed by `f`; tables on the way that are missing are made,
and of a list of tables the last one is taken if `lists` allows it.  There is none if a value is in
the way. -/
def Table.modifyNest? (lists : Bool) (f : Table → Option Table) :
    List String → Table → Option Table
  | [], t => f t
  | k :: rest, t =>
    match t.lookup k with
    | none => (modifyNest? lists f rest []).map fun sub => t.set k (.table sub)
    | some (.table sub) => (modifyNest? lists f rest sub).map fun sub => t.set k (.table sub)
    | some (.arr items) =>
      match lists, items.getLast? with
      | true, some (.table sub) =>
        (modifyNest? lists f rest sub).map fun sub =>
          t.set k (.arr (items.dropLast ++ [.table sub]))
      | _, _ => none
    | some _ => none

/-- The key leads to a table that has the member `name`. -/
def Table.hasMember (lists : Bool) (name : String) : List String → Table → Bool
  | [], t => (t.lookup name).isSome
  | k :: rest, t =>
    match t.lookup k with
    | some (.table sub) => hasMember lists name rest sub
    | some (.arr items) =>
      match lists, items.getLast? with
      | true, some (.table sub) => hasMember lists name rest sub
      | _, _ => false
    | _ => false

/-- A table with one more empty table in the list under a name. -/
def Table.appendTo? (name : String) (t : Table) : Option Table :=
  match t.lookup name with
  | none => some (t.set name (.arr [.table []]))
  | some (.arr items) => some (t.set name (.arr (items ++ [.table []])))
  | some _ => none

/-- A value that is a list or a table. -/
def isContainer : Toml → Bool
  | .arr _ => true
  | .table _ => true
  | _ => false

/-! ### Values -/

/-- The value under a key of a table that is written as a value, where the keys `frozen` hold lists
and tables; `left` are the characters after the value. -/
def addInline (t : Table) (frozen : List (List String)) (key : List String) (value : Toml)
    (left : List Char) : Except Failure Table :=
  let stem := key.getLastD ""
  if frozen.any (·.isPrefixOf key) then failAt (.immutable key) left
  else if t.hasMember false stem key.dropLast then failAt (.duplicateKey stem) left
  else
    match t.modifyNest? false (fun nest => some (nest.set stem value)) key.dropLast with
    | none => failAt .overwritten left
    | some t => .ok t

/-- A text, a truth value, a date or time, or a number. -/
def readScalar (cs : List Char) : Except Failure (Rest Toml) :=
  let text (r : Except Failure (Rest (List Char))) : Except Failure (Rest Toml) :=
    r.map fun (s, rest) => (.str (String.ofList s), rest)
  match cs with
  | '"' :: '"' :: '"' :: rest => text (readMultiline '"' rest)
  | '"' :: rest => text (readBasic false rest)
  | '\'' :: '\'' :: '\'' :: rest => text (readMultiline '\'' rest)
  | '\'' :: rest => text (readLiteral false rest)
  | 't' :: 'r' :: 'u' :: 'e' :: rest => .ok (.bool true, rest)
  | 'f' :: 'a' :: 'l' :: 's' :: 'e' :: rest => .ok (.bool false, rest)
  | _ =>
    match readMoment? cs with
    | some (m, rest) => if m.isValid then .ok (.moment m, rest) else failAt .badDate cs
    | none =>
      match readNumber? cs with
      | some (.ok value, rest) => .ok (value, rest)
      | some (.error e, _) => .error e
      | none => failAt .noValue cs

/-- How deeply values may be nested.  The lists and tables around a value weigh something, and that
is limited; the values stand where nothing else is known of the machine. -/
structure Nesting where
  /-- The most that the lists and tables around a value may weigh. -/
  limit : Nat := 970
  /-- What a list weighs. -/
  list : Nat := 2
  /-- What a table weighs. -/
  table : Nat := 3
  deriving Repr

mutual

/-- A value inside lists and tables of a weight, with at most `fuel` nested calls. -/
def readValue (nesting : Nesting) (weight : Nat) : Nat → List Char → Except Failure (Rest Toml)
  | 0, cs => failAt .noValue cs
  | fuel + 1, cs =>
    if nesting.limit < weight then .error .tooDeep
    else
      match cs with
      | '[' :: rest => do
        let rest ← skipBetween (rest.length + 1) rest
        let (items, rest) ← readItems nesting (weight + nesting.list) fuel rest
        return (.arr items, rest)
      | '\x7b' :: rest =>
        match skipSpace rest with
        | '\x7d' :: rest => .ok (.table [], rest)
        | rest => do
          let (members, rest) ← readInline nesting (weight + nesting.table) fuel [] [] rest
          return (.table members, rest)
      | _ => readScalar cs

/-- The items of a list up to its closing bracket. -/
def readItems (nesting : Nesting) (weight : Nat) :
    Nat → List Char → Except Failure (Rest (List Toml))
  | 0, cs => failAt .unclosedArray cs
  | fuel + 1, cs =>
    match cs with
    | ']' :: rest => .ok ([], rest)
    | _ => do
      let (value, rest) ← readValue nesting weight fuel cs
      let rest ← skipBetween (rest.length + 1) rest
      match rest with
      | ']' :: rest => return ([value], rest)
      | ',' :: rest =>
        let rest ← skipBetween (rest.length + 1) rest
        let (items, rest) ← readItems nesting weight fuel rest
        return (value :: items, rest)
      | _ => failAt .unclosedArray rest

/-- The members of a table that is written as a value, up to its closing brace. -/
def readInline (nesting : Nesting) (weight : Nat) :
    Nat → Table → List (List String) → List Char → Except Failure (Rest Table)
  | 0, _, _, cs => failAt .unclosedTable cs
  | fuel + 1, t, frozen, cs => do
    let (key, rest) ← readKeyEquals cs
    let (value, rest) ← readValue nesting weight fuel rest
    let t ← addInline t frozen key value rest
    match skipSpace rest with
    | '\x7d' :: rest => return (t, rest)
    | ',' :: rest =>
      let frozen := if isContainer value then key :: frozen else frozen
      readInline nesting weight fuel t frozen (skipSpace rest)
    | rest => failAt .unclosedTable rest

end

/-! ### Statements -/

/-- What has been declared. -/
structure Marks where
  /-- The keys of lists and tables that were written as values. -/
  frozen : List (List String) := []
  /-- The keys of tables that cannot be declared any more. -/
  declared : List (List String) := []
  /-- The keys of tables that cannot be declared once another table is. -/
  pending : List (List String) := []
  deriving Repr

namespace Marks

/-- The key is inside a list or table that was written as a value. -/
def isFrozen (m : Marks) (key : List String) : Bool := m.frozen.any (·.isPrefixOf key)

/-- The table under the key cannot be declared any more. -/
def isDeclared (m : Marks) (key : List String) : Bool := m.declared.contains key

/-- The marks when another table is declared. -/
def settle (m : Marks) : Marks := { m with declared := m.pending ++ m.declared, pending := [] }

/-- The marks without those of a key and of what is inside it. -/
def forget (m : Marks) (key : List String) : Marks :=
  { m with
    frozen := m.frozen.filter (!key.isPrefixOf ·)
    declared := m.declared.filter (!key.isPrefixOf ·) }

/-- The table under the key cannot be declared any more. -/
def declare (m : Marks) (key : List String) : Marks := { m with declared := key :: m.declared }

end Marks

/-- What has been read of a document. -/
structure Progress where
  /-- The table of the whole document. -/
  table : Table := []
  /-- The marks. -/
  marks : Marks := {}
  /-- The key of the current table. -/
  header : List String := []
  deriving Repr

/-- The declaration of a table, after its opening bracket. -/
def readTableHeader (p : Progress) (cs : List Char) : Except Failure (Rest Progress) := do
  let (key, rest) ← readKey (skipSpace cs)
  if p.marks.isDeclared key || p.marks.isFrozen key then failAt (.declaredTwice key) rest
  else
    match p.table.modifyNest? true some key with
    | none => failAt .overwritten rest
    | some changed =>
      match rest with
      | ']' :: rest => return (⟨changed, p.marks.declare key, key⟩, rest)
      | _ => failAt .noTableEnd rest

/-- The declaration of a table in a list of tables, after its opening brackets. -/
def readListHeader (p : Progress) (cs : List Char) : Except Failure (Rest Progress) := do
  let (key, rest) ← readKey (skipSpace cs)
  if p.marks.isFrozen key then failAt (.immutable key) rest
  else
    match p.table.modifyNest? true (Table.appendTo? (key.getLastD "")) key.dropLast with
    | none => failAt .overwritten rest
    | some changed =>
      match rest with
      | ']' :: ']' :: rest => return (⟨changed, (p.marks.forget key).declare key, key⟩, rest)
      | _ => failAt .noListEnd rest

/-- The keys of the tables that a key with dots goes through, from the outside in. -/
def passedKeys (header key : List String) : List (List String) :=
  (List.range (key.length - 1)).map fun i => header ++ key.take (i + 1)

/-- A key of the current table set to a value. -/
def readAssignment (nesting : Nesting) (p : Progress) (cs : List Char) :
    Except Failure (Rest Progress) := do
  let (key, rest) ← readKeyEquals cs
  let (value, rest) ← readValue nesting 0 (2 * rest.length + 2) rest
  let stem := key.getLastD ""
  let parent := p.header ++ key.dropLast
  let passed := passedKeys p.header key
  match passed.find? p.marks.isDeclared with
  | some declared => failAt (.redefined declared) rest
  | none =>
    if p.marks.isFrozen parent then failAt (.immutable parent) rest
    else if p.table.hasMember true stem parent then failAt .overwritten rest
    else
      match p.table.modifyNest? true (fun nest => some (nest.set stem value)) parent with
      | none => failAt .overwritten rest
      | some changed =>
        let frozen :=
          if isContainer value then (p.header ++ key) :: p.marks.frozen else p.marks.frozen
        let marks := { p.marks with frozen, pending := passed ++ p.marks.pending }
        return (⟨changed, marks, p.header⟩, rest)

/-- The statement on a line that is not empty. -/
def readStatement (nesting : Nesting) (p : Progress) (cs : List Char) :
    Except Failure (Rest Progress) :=
  match cs with
  | '[' :: '[' :: rest => readListHeader { p with marks := p.marks.settle } rest
  | '[' :: rest => readTableHeader { p with marks := p.marks.settle } rest
  | '#' :: _ => .ok (p, cs)
  | c :: _ =>
    if isBare c || c == '"' || c == '\'' then readAssignment nesting p cs
    else failAt .noStatement cs
  | [] => .ok (p, [])

/-- The statements of a document, at most `fuel` of them. -/
def readStatements (nesting : Nesting) : Nat → Progress → List Char → Except Failure Table
  | 0, p, _ => .ok p.table
  | fuel + 1, p, cs =>
    match skipSpace cs with
    | [] => .ok p.table
    | '\n' :: rest => readStatements nesting fuel p rest
    | cs => do
      let (p, rest) ← readStatement nesting p cs
      let rest ← skipComment (skipSpace rest)
      match rest with
      | [] => return p.table
      | '\n' :: rest => readStatements nesting fuel p rest
      | _ => failAt .noLineEnd rest

/-! ### Documents -/

/-- Every pair of a carriage return and a line feed as a line feed. -/
def joinLineEnds : List Char → List Char
  | '\r' :: '\n' :: rest => '\n' :: joinLineEnds rest
  | c :: rest => c :: joinLineEnds rest
  | [] => []

/-- Why a document cannot be read. -/
inductive ReadError where
  /-- The document is malformed at a place, or at its end if there is none. -/
  | malformed (cause : Cause) (place : Option Text.Place)
  /-- An integer has too many digits. -/
  | hugeInteger (digits : Nat)
  /-- Lists and tables are nested too deeply. -/
  | tooDeep
  deriving DecidableEq, Repr

/-- The report of an error. -/
def ReadError.message : ReadError → String
  | .malformed cause none => cause.message ++ " (at end of document)"
  | .malformed cause (some place) =>
    cause.message ++ s!" (at line {place.line}, column {place.column})"
  | .hugeInteger digits => hugeIntegerMessage digitLimit digits
  | .tooDeep => "maximum recursion depth exceeded"

/-- The error of a failure in a text. -/
def ReadError.ofFailure (text : List Char) : Failure → ReadError
  | .hugeInteger digits => .hugeInteger digits
  | .tooDeep => .tooDeep
  | .malformed cause left =>
    .malformed cause (if left == 0 then none else some (Text.placeAt text (text.length - left)))

/-- The table of a document. -/
def parse (cs : List Char) (nesting : Nesting := {}) : Except ReadError Table :=
  let text := joinLineEnds cs
  (readStatements nesting (text.length + 1) {} text).mapError (.ofFailure text)

end Cohesion.Toml
