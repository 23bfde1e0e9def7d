/-
Similarity of words.

Two words are compared by the longest run of characters that they share, and in the same way by
what stands before it and by what stands after it.  The similarity is the share of both words that
the runs cover.

Main definitions:
* `longestRun` — the longest common run, the first of several;
* `sharedLength` — the number of characters in all runs;
* `similarWords` — the words that are similar enough to a word, the closest ones only.
-/

set_option autoImplicit false

namespace Cohesion.Text

/-- The length of the common start of two words. -/
def commonStart : List Char → List Char → Nat
  | a :: as, b :: bs => if a == b then commonStart as bs + 1 else 0
  | _, _ => 0

/-- A run that two words share. -/
structure SharedRun where
  /-- Its position in the first word. -/
  first : Nat
  /-- Its position in the second word. -/
  second : Nat
  /-- Its length. -/
  length : Nat
  deriving DecidableEq, Repr

/-- The runs that start at each pair of positions, in the order of the positions. -/
def sharedRuns (a b : List Char) : List SharedRun :=
  (List.range a.length).flatMap fun i =>
    (List.range b.length).map fun j => ⟨i, j, commonStart (a.drop i) (b.drop j)⟩

/-- The longest common run, the first of several. -/
def longestRun (a b : List Char) : SharedRun :=
  (sharedRuns a b).foldl (fun best run => if best.length < run.length then run else best) ⟨0, 0, 0⟩

/-- The number of characters in all common runs, found by at most `fuel` divisions one within the
other. -/
def sharedLengthWithin : Nat → List Char → List Char → Nat
  | 0, _, _ => 0
  | fuel + 1, a, b =>
    let run := longestRun a b
    if run.length == 0 then 0
    else
      run.length + sharedLengthWithin fuel (a.take run.first) (b.take run.second) +
        sharedLengthWithin fuel (a.drop (run.first + run.length)) (b.drop (run.second + run.length))

/-- The number of characters in all common runs. -/
def sharedLength (a b : String) : Nat := sharedLengthWithin (a.length + 1) a.toList b.toList

/-- A word and its similarity to another one, as a fraction. -/
structure RatedWord where
  /-- The word. -/
  word : String
  /-- Twice the number of shared characters. -/
  shared : Nat
  /-- The number of all characters. -/
  all : Nat
  deriving DecidableEq, Repr

namespace RatedWord

/-- A word with its similarity to another one. -/
def rate (word other : String) : RatedWord :=
  ⟨word, 2 * sharedLength word other, word.length + other.length⟩

/-- At least three fifths are shared. -/
def isClose (r : RatedWord) : Bool := 3 * r.all ≤ 5 * r.shared

/-- The closer one comes first, of equally close ones the later in the alphabet. -/
def atLeast (r s : RatedWord) : Bool :=
  decide (s.shared * r.all < r.shared * s.all) ||
    (r.shared * s.all == s.shared * r.all && decide (s.word ≤ r.word))

end RatedWord

/-- The at most three closest of the words that are similar enough to a word, in alphabetical
order. -/
def similarWords (words : List String) (word : String) : List String :=
  let rated := (words.map (RatedWord.rate · word)).filter (·.isClose)
  (((rated.mergeSort RatedWord.atLeast).take 3).map (·.word)).mergeSort fun a b => decide (a ≤ b)

end Cohesion.Text
