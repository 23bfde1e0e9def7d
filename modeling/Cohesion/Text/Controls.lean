/-
Terminal controls in a text.

A control is an escape character, a bracket, parameters and a letter.  A text that is not shown on
a terminal is shown without its controls.

Main definitions:
* `withoutControls` — a text without its controls.
-/

set_option autoImplicit false

namespace Cohesion.Text

/-- A character of the parameters of a control. -/
def isControlParameter (c : Char) : Bool := c.isDigit || c == ';' || c == '?'

/-- What follows the control whose escape character and bracket stand before the text. -/
def afterControl? (cs : List Char) : Option (List Char) :=
  match cs.dropWhile isControlParameter with
  | c :: rest => if c.isAlpha then some rest else none
  | [] => none

theorem length_of_afterControl? {cs rest : List Char} (h : afterControl? cs = some rest) :
    rest.length < cs.length := by
  have le := (List.dropWhile_sublist (l := cs) isControlParameter).length_le
  unfold afterControl? at h
  split at h
  · next c r eq =>
    rw [eq, List.length_cons] at le
    split at h
    · cases h
      exact le
    · cases h
  · cases h

/-- A text without its controls. -/
def withoutControls : List Char → List Char
  | [] => []
  | '\x1b' :: '[' :: rest =>
    match _h : afterControl? rest with
    | some after => withoutControls after
    | none => '\x1b' :: withoutControls ('[' :: rest)
  | c :: rest => c :: withoutControls rest
  termination_by cs => cs.length
  decreasing_by
    · have := length_of_afterControl? _h
      simp only [List.length_cons]
      omega
    · simp
    · simp

end Cohesion.Text
