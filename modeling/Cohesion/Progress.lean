/-
Progress of a work.

The work is shown as a bar between brackets, with the steps done, all steps and what is counted.
Each state overwrites the one before it; the last one ends the line.

Main definitions:
* `Progress` — a state of the work;
* `Progress.bar`, `Progress.line` — its bar and its whole line.
-/
import Cohesion.Number.Binary64

set_option autoImplicit false

namespace Cohesion

/-- A state of a work. -/
structure Progress where
  /-- The number of steps done. -/
  current : Int
  /-- The number of all steps. -/
  total : Int
  /-- What is counted. -/
  subject : String
  deriving DecidableEq, Repr

namespace Progress

/-- The width of a bar. -/
def standardWidth : Int := 30

/-- A character repeated, not at all for a negative number. -/
def repeated (n : Int) (c : Char) : String := String.ofList (List.replicate n.toNat c)

/-- The part of the width that is filled. -/
def filled (width : Int) (p : Progress) : Int :=
  ((Binary64.ratio (width * p.current) (max p.total 1)).truncate?).getD 0

/-- The bar: filled up to an arrow head, or completely. -/
def bar (width : Int) (p : Progress) : String :=
  let n := p.filled width
  if n < width then repeated n '=' ++ ">" ++ repeated (width - n - 1) ' ' else repeated width '='

/-- The work is done. -/
def isComplete (p : Progress) : Bool := p.total ≤ p.current

/-- The control that clears a line from where it is written. -/
def clearRest : String := "\x1b[K"

/-- The whole line, which starts by going back to the start of the line. -/
def line (width : Int) (p : Progress) : String :=
  s!"\r   [{p.bar width}] {p.current}/{p.total} {p.subject}" ++ clearRest ++
    if p.isComplete then "\n" else ""

end Progress

end Cohesion
