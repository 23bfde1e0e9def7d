/-
The text of a path determines the path.

A path that was read has parts that carry a meaning, none of them with a slash in it.  Such a path
is read back from its text, so different paths have different texts.

Main definitions:
* `Path.IsNormal` — the paths that reading gives.

Main results:
* `Text.splitAt_intercalate` — pieces are found again after they were joined;
* `Path.ofString_toString` — a path is read back from its text;
* `Path.toString_inj` — different paths have different texts.
-/
import Cohesion.Path
import Mathlib.Data.List.Basic

set_option autoImplicit false

namespace Cohesion

/-! ### Joined pieces -/

namespace Text

variable {sep : Char}

theorem splitAt_append_cons {piece : List Char} (h : sep ∉ piece) (rest : List Char) :
    splitAt sep (piece ++ sep :: rest) = piece :: splitAt sep rest := by
  induction piece with
  | nil => simp [splitAt]
  | cons c piece ih =>
      rw [List.mem_cons, not_or] at h
      have hc : (c == sep) = false := beq_false_of_ne (Ne.symm h.1)
      rw [List.cons_append, splitAt, ih h.2]
      simp [hc]

theorem splitAt_of_notMem {piece : List Char} (h : sep ∉ piece) : splitAt sep piece = [piece] := by
  induction piece with
  | nil => rfl
  | cons c piece ih =>
      rw [List.mem_cons, not_or] at h
      have hc : (c == sep) = false := beq_false_of_ne (Ne.symm h.1)
      rw [splitAt, ih h.2]
      simp [hc]

/-- Pieces without the separator are found again after they were joined. -/
theorem splitAt_intercalate {pieces : List (List Char)} (hne : pieces ≠ [])
    (h : ∀ piece ∈ pieces, sep ∉ piece) : splitAt sep ([sep].intercalate pieces) = pieces := by
  induction pieces with
  | nil => exact absurd rfl hne
  | cons piece pieces ih =>
      rw [List.forall_mem_cons] at h
      cases pieces with
      | nil => simpa using splitAt_of_notMem h.1
      | cons next pieces =>
          rw [List.intercalate_cons_cons, List.append_assoc, List.singleton_append,
            splitAt_append_cons h.1, ih (List.cons_ne_nil _ _) h.2]

end Text

/-! ### Paths -/

namespace Path

/-- A path as it is read: its root is one of three, and its parts carry a meaning. -/
structure IsNormal (p : Path) : Prop where
  /-- Nothing, one slash or two stand before the parts. -/
  root : p.root = "" ∨ p.root = "/" ∨ p.root = "//"
  /-- No part is empty or a single dot. -/
  isPart : ∀ part ∈ p.parts, isPart part = true
  /-- No part has a slash in it. -/
  slash : ∀ part ∈ p.parts, '/' ∉ part.toList

instance (p : Path) : Decidable p.IsNormal :=
  decidable_of_iff
    ((p.root = "" ∨ p.root = "/" ∨ p.root = "//") ∧
      (∀ part ∈ p.parts, Path.isPart part = true) ∧ ∀ part ∈ p.parts, '/' ∉ part.toList)
    ⟨fun h => ⟨h.1, h.2.1, h.2.2⟩, fun h => ⟨h.root, h.isPart, h.slash⟩⟩

variable {p q : Path}

/-- The parts as they stand in the text, with a slash between each two of them. -/
def body (parts : List String) : List Char := ['/'].intercalate (parts.map String.toList)

/-- What is found in the parts' text are the parts. -/
theorem filter_splitAt_body {parts : List String} (hpart : ∀ part ∈ parts, isPart part = true)
    (hslash : ∀ part ∈ parts, '/' ∉ part.toList) :
    ((Text.splitAt '/' (body parts)).map String.ofList).filter isPart = parts := by
  rcases eq_or_ne parts [] with rfl | hne
  · rfl
  · have hsplit : Text.splitAt '/' (body parts) = parts.map String.toList :=
      Text.splitAt_intercalate (by simpa using hne) (by simpa using hslash)
    have hback : (parts.map String.toList).map String.ofList = parts := by
      simp [Function.comp_def]
    rw [hsplit, hback]
    exact List.filter_eq_self.2 hpart

/-- The parts' text does not start with a slash. -/
theorem head?_body_ne {parts : List String} (hpart : ∀ part ∈ parts, isPart part = true)
    (hslash : ∀ part ∈ parts, '/' ∉ part.toList) : (body parts).head? ≠ some '/' := by
  cases parts with
  | nil => simp [body]
  | cons part parts =>
      have hne : part.toList ≠ [] := by
        have h := hpart part List.mem_cons_self
        rintro h'
        rw [String.toList_eq_nil_iff.1 h'] at h
        exact absurd h (by decide)
      have hhead : (body (part :: parts)).head? = part.toList.head? := by
        cases parts with
        | nil => simp [body]
        | cons next parts =>
            rw [body, List.map_cons, List.map_cons, List.intercalate_cons_cons,
              List.append_assoc, List.head?_append_of_ne_nil _ hne]
      rw [hhead]
      exact fun h => hslash part List.mem_cons_self (List.mem_of_head? h)

/-- The root is found before a text that does not start with a slash. -/
theorem rootOf_append {root : String} (hroot : root = "" ∨ root = "/" ∨ root = "//")
    {cs : List Char} (hcs : cs.head? ≠ some '/') : rootOf (root.toList ++ cs) = root := by
  cases cs with
  | nil => rcases hroot with rfl | rfl | rfl <;> rfl
  | cons c cs =>
      have hc : c ≠ '/' := by simpa using hcs
      rcases hroot with rfl | rfl | rfl <;> simp [rootOf, hc]

/-- The slashes of the root only add empty pieces, which are no parts. -/
theorem filter_splitAt_append {root : String} (hroot : root = "" ∨ root = "/" ∨ root = "//")
    (cs : List Char) :
    ((Text.splitAt '/' (root.toList ++ cs)).map String.ofList).filter isPart =
      ((Text.splitAt '/' cs).map String.ofList).filter isPart := by
  have hempty : isPart (String.ofList []) = false := by decide
  rcases hroot with rfl | rfl | rfl <;> simp [Text.splitAt, hempty]

/-- The text of a path that has parts. -/
theorem toList_toString (h : p.parts ≠ []) :
    p.toString.toList = p.root.toList ++ body p.parts := by
  have hdot : ¬(p.root == "" && p.parts.isEmpty) = true := by
    rw [Bool.and_eq_true, List.isEmpty_iff]
    exact fun hand => h hand.2
  rw [toString, if_neg hdot, String.toList_append, String.toList_intercalate]
  rfl

/-- A path is read back from its text. -/
theorem ofString_toString (h : p.IsNormal) : ofString p.toString = p := by
  obtain ⟨root, parts⟩ := p
  obtain ⟨hroot, hpart, hslash⟩ := h
  dsimp only at hroot hpart hslash
  by_cases hdot : (root == "" && parts.isEmpty) = true
  · rw [Bool.and_eq_true, beq_iff_eq, List.isEmpty_iff] at hdot
    obtain ⟨rfl, rfl⟩ := hdot
    decide
  · have htext : (toString ⟨root, parts⟩).toList = root.toList ++ body parts := by
      rw [toString, if_neg hdot, String.toList_append, String.toList_intercalate]
      rfl
    rw [ofString, htext, rootOf_append hroot (head?_body_ne hpart hslash),
      filter_splitAt_append hroot, filter_splitAt_body hpart hslash]

/-- Different paths have different texts. -/
theorem toString_inj (hp : p.IsNormal) (hq : q.IsNormal) : p.toString = q.toString ↔ p = q := by
  constructor
  · intro h
    rw [← ofString_toString hp, h, ofString_toString hq]
  · exact congrArg toString

end Path

end Cohesion
