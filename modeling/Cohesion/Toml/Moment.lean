/-
Dates and times of TOML documents.

Main definitions:
* `Date`, `TimeOfDay`, `Moment` — dates, times, and both together with an offset;
* `Date.isValid` — the date is in the calendar;
* `Moment.text` — the plain text;
* `Moment.literal` — the text in messages.
-/

set_option autoImplicit false

namespace Cohesion.Toml

/-- A date. -/
structure Date where
  /-- The year. -/
  year : Nat
  /-- The month, from one. -/
  month : Nat
  /-- The day, from one. -/
  day : Nat
  deriving DecidableEq, Repr

/-- A time of day. -/
structure TimeOfDay where
  /-- The hour. -/
  hour : Nat
  /-- The minute. -/
  minute : Nat
  /-- The second. -/
  second : Nat
  /-- The millionths of the second. -/
  micros : Nat
  deriving DecidableEq, Repr

/-- A date, a time, or both. -/
inductive Moment where
  /-- A date. -/
  | date (d : Date)
  /-- A time of day. -/
  | time (t : TimeOfDay)
  /-- A date and a time, with the minutes by which local time is ahead, if they are given. -/
  | dateTime (d : Date) (t : TimeOfDay) (offset : Option Int)
  deriving DecidableEq, Repr

/-- A year with a 29th of February. -/
def isLeapYear (year : Nat) : Bool := year % 4 == 0 && (year % 100 != 0 || year % 400 == 0)

/-- The number of days of a month. -/
def daysOfMonth (year month : Nat) : Nat :=
  if month == 2 then (if isLeapYear year then 29 else 28)
  else if [4, 6, 9, 11].contains month then 30
  else 31

/-- The date is in the calendar; there is no year zero. -/
def Date.isValid (d : Date) : Bool :=
  d.year != 0 && 1 ≤ d.month && d.month ≤ 12 && 1 ≤ d.day && d.day ≤ daysOfMonth d.year d.month

/-- A number with zeros in front, up to a width. -/
def padded (width n : Nat) : String :=
  let digits := toString n
  String.ofList (List.replicate (width - digits.length) '0') ++ digits

/-- A date as text. -/
def Date.text (d : Date) : String := s!"{padded 4 d.year}-{padded 2 d.month}-{padded 2 d.day}"

/-- A time as text; the millionths are left out when there are none. -/
def TimeOfDay.text (t : TimeOfDay) : String :=
  s!"{padded 2 t.hour}:{padded 2 t.minute}:{padded 2 t.second}" ++
    if t.micros == 0 then "" else s!".{padded 6 t.micros}"

/-- An offset as text. -/
def offsetText (minutes : Int) : String :=
  let sign := if minutes < 0 then "-" else "+"
  s!"{sign}{padded 2 (minutes.natAbs / 60)}:{padded 2 (minutes.natAbs % 60)}"

/-- The plain text. -/
def Moment.text : Moment → String
  | .date d => d.text
  | .time t => t.text
  | .dateTime d t offset => d.text ++ " " ++ t.text ++ (offset.map offsetText).getD ""

/-- The arguments of a time in messages: seconds are left out when all that follows is zero. -/
def TimeOfDay.arguments (t : TimeOfDay) : List String :=
  [toString t.hour, toString t.minute] ++
    (if t.second == 0 && t.micros == 0 then [] else [toString t.second]) ++
    if t.micros == 0 then [] else [toString t.micros]

/-- An offset in messages: a negative one counts from the day before. -/
def offsetLiteral (minutes : Int) : String :=
  if minutes == 0 then "datetime.timezone.utc"
  else if minutes < 0 then
    s!"datetime.timezone(datetime.timedelta(days=-1, seconds={86400 + 60 * minutes}))"
  else s!"datetime.timezone(datetime.timedelta(seconds={60 * minutes}))"

/-- A name with arguments. -/
def call (name : String) (arguments : List String) : String :=
  name ++ "(" ++ ", ".intercalate arguments ++ ")"

/-- The text in messages. -/
def Moment.literal : Moment → String
  | .date d => call "datetime.date" [toString d.year, toString d.month, toString d.day]
  | .time t => call "datetime.time" t.arguments
  | .dateTime d t offset =>
    call "datetime.datetime" <|
      [toString d.year, toString d.month, toString d.day] ++ t.arguments ++
        (offset.map fun o => "tzinfo=" ++ offsetLiteral o).toList

end Cohesion.Toml
