/-
Patterns of file names.

A star stands for any text, slashes included, a question mark for any one character, and brackets
for one character of a set: characters and ranges, negated by an exclamation mark in front.  A
closing bracket that comes first belongs to the set; brackets that are not closed stand for
themselves.  A pattern has to match all of a text.

Main definitions:
* `CharSet`, `CharSet.ofText` — sets of characters and how they are written;
* `Glob`, `Glob.ofString` — patterns and how they are written;
* `Glob.matchParts` — matching by the parts of a pattern;
* `Glob.accepts`, `Glob.accepts_eq_matchParts` — matching in a number of steps that is at most the
  product of the lengths.
-/

set_option autoImplicit false

namespace Cohesion

/-! ### Sets of characters -/

/-- An element of a set: the characters from one to another. -/
structure CharRange where
  /-- The first character. -/
  first : Char
  /-- The last character. -/
  last : Char
  deriving DecidableEq, Repr

/-- A set of characters. -/
structure CharSet where
  /-- The set has the characters that are not listed. -/
  negated : Bool
  /-- The listed characters. -/
  ranges : List CharRange
  deriving DecidableEq, Repr

namespace CharSet

/-- Membership. -/
def contains (s : CharSet) (c : Char) : Bool :=
  s.ranges.any (fun r => r.first ≤ c && c ≤ r.last) != s.negated

/-- The elements that a text lists: a character, a hyphen and a character are a range, which has no
characters when it runs backwards; a hyphen at either end is a character. -/
def rangesOf : List Char → List CharRange
  | first :: '-' :: last :: rest =>
    if first ≤ last then ⟨first, last⟩ :: rangesOf rest else rangesOf rest
  | c :: rest => ⟨c, c⟩ :: rangesOf rest
  | [] => []

/-- A text without the ranges at its front that run backwards. -/
def dropBackward : List Char → List Char
  | first :: '-' :: last :: rest =>
    if last < first then dropBackward rest else first :: '-' :: last :: rest
  | cs => cs

/-- The set that is written between brackets; ranges that run backwards do not hide the mark of
negation. -/
def ofText : List Char → CharSet
  | '!' :: listed => ⟨true, rangesOf listed⟩
  | cs =>
    match dropBackward cs with
    | '!' :: listed => ⟨true, rangesOf listed⟩
    | listed => ⟨false, rangesOf listed⟩

end CharSet

/-! ### Patterns -/

/-- A part of a pattern. -/
inductive GlobPart where
  /-- Any text. -/
  | anyText
  /-- Any one character. -/
  | anyChar
  /-- One character of a set. -/
  | charIn (set : CharSet)
  /-- One character. -/
  | char (c : Char)
  deriving DecidableEq, Repr

/-- A pattern. -/
structure Glob where
  /-- The parts in order. -/
  parts : List GlobPart
  deriving DecidableEq, Repr

namespace Glob

/-- A text up to the next closing bracket, and what follows the bracket. -/
def untilBracket : List Char → Option (List Char × List Char)
  | [] => none
  | ']' :: rest => some ([], rest)
  | c :: rest => (untilBracket rest).map fun (inside, rest) => (c :: inside, rest)

/-- What is written between brackets, and what follows the closing one: the mark of negation and
then a closing bracket may come first. -/
def bracketed (cs : List Char) : Option (List Char × List Char) :=
  let (mark, cs) := match cs with
    | '!' :: rest => (['!'], rest)
    | _ => ([], cs)
  let (first, cs) := match cs with
    | ']' :: rest => ([']'], rest)
    | _ => ([], cs)
  (untilBracket cs).map fun (inside, rest) => (mark ++ first ++ inside, rest)

/-- The parts that a text spells, after skipping the `skip` characters that the last part still
covers. -/
def partsFrom (skip : Nat) : List Char → List GlobPart
  | [] => []
  | c :: rest =>
    match skip with
    | skip + 1 => partsFrom skip rest
    | 0 =>
      if c == '*' then .anyText :: partsFrom 0 rest
      else if c == '?' then .anyChar :: partsFrom 0 rest
      else if c == '[' then
        match bracketed rest with
        | some (listed, after) =>
          .charIn (.ofText listed) :: partsFrom (rest.length - after.length) rest
        | none => .char c :: partsFrom 0 rest
      else .char c :: partsFrom 0 rest

/-- The pattern that a text spells. -/
def ofString (s : String) : Glob := ⟨partsFrom 0 s.toList⟩

/-- One character is matched by a part. -/
def partMatches (c : Char) : GlobPart → Bool
  | .anyText => false
  | .anyChar => true
  | .charIn set => set.contains c
  | .char d => c == d

/-- All ends of a text, the longest first. -/
def ends : List Char → List (List Char)
  | [] => [[]]
  | c :: rest => (c :: rest) :: ends rest

/-- All of a text is matched by the parts of a pattern. -/
def matchParts : List GlobPart → List Char → Bool
  | [], cs => cs.isEmpty
  | .anyText :: parts, cs => (ends cs).any (matchParts parts)
  | part :: parts, c :: cs => partMatches c part && matchParts parts cs
  | _ :: _, [] => false

/-- For each place of a list, whether something from there on holds. -/
def anyLater : List Bool → List Bool
  | [] => []
  | b :: bs =>
    let later := anyLater bs
    (b || later.headD false) :: later

/-- Whether the parts of a pattern match each end of a text, the longest end first. -/
def matchEnds : List GlobPart → List Char → List Bool
  | [], cs => cs.map (fun _ => false) ++ [true]
  | .anyText :: parts, cs => anyLater (matchEnds parts cs)
  | part :: parts, cs =>
    List.zipWith (fun c rest => partMatches c part && rest) cs (matchEnds parts cs).tail ++ [false]

/-- All of a text is matched by a pattern. -/
def accepts (g : Glob) (s : String) : Bool := (matchEnds g.parts s.toList).headD false

/-! ### All ends at once -/

theorem ends_eq_cons (cs : List Char) : ends cs = cs :: (ends cs).tail := by
  cases cs <;> rfl

theorem headD_map_ends (f : List Char → Bool) (cs : List Char) :
    ((ends cs).map f).headD false = f cs := by
  rw [ends_eq_cons]
  rfl

theorem anyLater_map_ends (f : List Char → Bool) (cs : List Char) :
    anyLater ((ends cs).map f) = (ends cs).map fun e => (ends e).any f := by
  induction cs with
  | nil => rfl
  | cons c cs ih => simp only [ends, List.map_cons, anyLater, ih, headD_map_ends, List.any_cons]

theorem zipWith_ends (test : Char → Bool) (f : List Char → Bool) (cs : List Char) :
    List.zipWith (fun c rest => test c && rest) cs ((ends cs).map f).tail ++ [false] =
      (ends cs).map fun
        | c :: rest => test c && f rest
        | [] => false := by
  induction cs with
  | nil => rfl
  | cons c cs ih =>
    have first : (ends cs).map f = f cs :: ((ends cs).map f).tail := by
      rw [ends_eq_cons cs]
      rfl
    simp only [ends, List.map_cons, List.tail_cons]
    rw [← ih, first]
    rfl

/-- Matching all ends of a text at once is matching each of them. -/
theorem matchEnds_eq (parts : List GlobPart) (cs : List Char) :
    matchEnds parts cs = (ends cs).map (matchParts parts) := by
  induction parts with
  | nil =>
    induction cs with
    | nil => rfl
    | cons c cs ih =>
      simp only [matchEnds, List.map_cons, List.cons_append, ends] at ih ⊢
      rw [ih]
      rfl
  | cons part parts ih =>
    cases part with
    | anyText =>
      simp only [matchEnds, ih, anyLater_map_ends]
      rfl
    | anyChar | charIn _ | char _ =>
      simp only [matchEnds, ih, zipWith_ends]
      refine List.map_congr_left fun e _ => ?_
      cases e <;> rfl

theorem accepts_eq_matchParts (g : Glob) (s : String) :
    g.accepts s = matchParts g.parts s.toList := by
  rw [accepts, matchEnds_eq, headD_map_ends]

end Glob

end Cohesion
