/-
The limits of reading JSON documents.

A document is not read because it is malformed, or because it is beyond one of two limits: what the
reader takes for an integer, and the room for containers that it is given.  Both limits can be seen
in the text: an integer with too many digits is a long run of digits, and containers that are nested
too deeply are opened by many brackets and braces.

Main definitions:
* `Json.HasLongRun` — a text has a run of digits that is too long for an integer;
* `Json.openings` — the number of brackets and braces that open a container;
* `Json.Within` — what reading from the front of a text may lead to.

Main results:
* `Json.within_read` — every part of the reader stays within the text and its limits;
* `Json.of_parse_eq_hugeInteger`, `Json.of_parse_eq_tooDeep` — **the limits can be seen in the
  text**.
-/
import Cohesion.Json.Reader
import Mathlib.Data.List.Infix

set_option autoImplicit false

namespace Cohesion.Json

/-- A text has a run of `n` digits, too long for an integer. -/
def HasLongRun (n : Nat) (text : List Char) : Prop :=
  digitLimit < n ∧
    ∃ digits, digits <:+: text ∧ digits.length = n ∧ ∀ d ∈ digits, d.isDigit = true

/-- The number of brackets and braces that open a container. -/
def openings (text : List Char) : Nat := text.countP fun c => c == '[' || c == '\x7b'

/-- Reading from the front of a text ends inside the text, or because it is malformed, or because of
a limit: there is a long run of digits, or there are more than `levels` openings. -/
def Within {α : Type} (text : List Char) (levels : Nat) : Except ReadError (α × Cursor) → Prop
  | .ok r => r.2.rest <:+ text
  | .error (.malformed _ _) => True
  | .error (.hugeInteger n) => HasLongRun n text
  | .error (.tooDeep _) => levels < openings text

theorem HasLongRun.mono {n : Nat} {text text' : List Char} (h : HasLongRun n text)
    (hsuffix : text <:+ text') : HasLongRun n text' := by
  obtain ⟨hlong, digits, hinfix, hrest⟩ := h
  exact ⟨hlong, digits, hinfix.trans hsuffix.isInfix, hrest⟩

theorem openings_le {text text' : List Char} (h : text <:+ text') :
    openings text ≤ openings text' := h.sublist.countP_le

namespace Within

variable {α β : Type} {text text' : List Char} {levels : Nat} {r : Except ReadError (α × Cursor)}

theorem mono (h : Within text levels r) (hsuffix : text <:+ text') : Within text' levels r := by
  match r, h with
  | .ok _, h => exact h.trans hsuffix
  | .error (.malformed _ _), _ => trivial
  | .error (.hugeInteger _), h => exact HasLongRun.mono h hsuffix
  | .error (.tooDeep _), h => exact lt_of_lt_of_le h (openings_le hsuffix)

/-- Behind an opening one level less is left. -/
theorem opened {c : Char} (h : Within text levels r) (hc : (c == '[' || c == '\x7b') = true)
    (hsuffix : c :: text <:+ text') : Within text' (levels + 1) r := by
  match r, h with
  | .ok _, h => exact (h.trans (List.suffix_cons _ _)).trans hsuffix
  | .error (.malformed _ _), _ => trivial
  | .error (.hugeInteger _), h =>
      exact HasLongRun.mono h ((List.suffix_cons _ _).trans hsuffix)
  | .error (.tooDeep _), h =>
      have hone : openings (c :: text) = openings text + 1 := List.countP_cons_of_pos hc
      have hle := openings_le hsuffix
      change levels < openings text at h
      change levels + 1 < openings text'
      omega

theorem bind {f : α × Cursor → Except ReadError (β × Cursor)} (h : Within text levels r)
    (hf : ∀ a c, c.rest <:+ text → Within text levels (f (a, c))) :
    Within text levels (r >>= f) := by
  match r, h with
  | .ok (a, c), h => exact hf a c h
  | .error (.malformed _ _), _ => trivial
  | .error (.hugeInteger _), h => exact h
  | .error (.tooDeep _), h => exact h

end Within

/-! ### Cursors -/

theorem rest_advance (c : Cursor) (n : Nat) : (c.advance n).rest <:+ c.rest :=
  List.drop_suffix _ _

theorem rest_skipSpace (c : Cursor) : c.skipSpace.rest <:+ c.rest := rest_advance _ _

/-! ### The parts of the reader -/

theorem within_readString (start fuel levels : Nat) (done : List Char) (c : Cursor) :
    Within c.rest levels (readString start fuel done c) := by
  -- each step goes on behind the characters that it has looked at
  fun_induction readString start fuel done c with
  | case3 => exact List.suffix_cons _ _
  | case6 _ _ _ rest _ _ _ _ _ _ _ _ ih =>
      refine ih.mono ?_
      exact ((List.drop_suffix _ _).trans (List.drop_suffix 4 rest)).trans
        (List.suffix_append ['\\', 'u'] _)
  | case8 _ _ _ rest _ _ _ _ _ _ _ ih =>
      exact ih.mono ((List.drop_suffix 4 rest).trans (List.suffix_append ['\\', 'u'] _))
  | case9 _ _ _ rest _ _ _ _ _ _ ih =>
      exact ih.mono ((List.drop_suffix 4 rest).trans (List.suffix_append ['\\', 'u'] _))
  | case10 _ _ _ c rest _ _ _ ih => exact ih.mono (List.suffix_append ['\\', c] _)
  | case14 _ _ _ _ _ _ _ _ _ _ ih => exact ih.mono (List.suffix_cons _ _)
  | case1 => trivial
  | case2 => trivial
  | case4 => trivial
  | case5 => trivial
  | case7 => trivial
  | case11 => trivial
  | case12 => trivial
  | case13 => trivial

/-- The digits of an integer part stand at the front. -/
theorem integerDigits_prefix (cs : List Char) :
    integerDigits cs <+: cs ∧ ∀ d ∈ integerDigits cs, d.isDigit = true := by
  unfold integerDigits
  split
  · exact ⟨⟨_, rfl⟩, by simp⟩
  · exact ⟨List.takeWhile_prefix _, fun d hd => List.all_eq_true.1 List.all_takeWhile d hd⟩

/-- The integer part of a number is a run of digits of the text. -/
theorem hasLongRun_integerDigits {body text : List Char} (hsuffix : body <:+ text)
    (hlong : digitLimit < (integerDigits body).length) :
    HasLongRun (integerDigits body).length text := by
  obtain ⟨hfront, hdigits⟩ := integerDigits_prefix body
  exact ⟨hlong, _, hfront.isInfix.trans hsuffix.isInfix, rfl, hdigits⟩

/-- A number that cannot be read has too many digits. -/
theorem of_readNumber?_eq_error {cs : List Char} {e : ReadError} {n : Nat}
    (h : readNumber? cs = some (.error e, n)) :
    ∃ digits, e = .hugeInteger digits ∧ HasLongRun digits cs := by
  unfold readNumber? at h
  split at h
  rename_i sign body hsign
  have hsuffix : body <:+ cs := by
    split at hsign
    · cases hsign
      exact List.suffix_cons _ _
    · cases hsign
      exact List.suffix_refl _
  dsimp only at h
  split at h
  · cases h
  · rw [Option.some.injEq, Prod.mk.injEq] at h
    obtain ⟨hvalue, -⟩ := h
    split at hvalue
    · split at hvalue
      · rename_i hlong
        exact ⟨_, (Except.error.inj hvalue).symm, hasLongRun_integerDigits hsuffix hlong⟩
      · cases hvalue
    · cases hvalue

theorem within_readScalar (levels : Nat) (c : Cursor) : Within c.rest levels (readScalar c) := by
  unfold readScalar
  split
  · exact rest_advance _ _
  · split
    · exact rest_advance _ _
    · rename_i hnumber
      obtain ⟨digits, rfl, hlong⟩ := of_readNumber?_eq_error hnumber
      exact hlong
    · trivial

/-- What follows in a container is within the text when the rest of it is. -/
theorem Within.skip {α : Type} {levels n : Nat} {c : Cursor} {r : Except ReadError (α × Cursor)}
    (h : Within (c.advance n).skipSpace.rest levels r) : Within c.rest levels r :=
  h.mono ((rest_skipSpace _).trans (rest_advance c n))

/-- What stands in a container is one level deeper. -/
theorem Within.inside {α : Type} {limit depth : Nat} {c : Cursor} {b : Char} {rest : List Char}
    {r : Except ReadError (α × Cursor)} (hrest : c.rest = b :: rest)
    (hb : (b == '[' || b == '\x7b') = true) (hdepth : ¬limit ≤ depth)
    (h : Within (c.advance 1).skipSpace.rest (limit - (depth + 1)) r) :
    Within c.rest (limit - depth) r := by
  have hlevels : limit - depth = limit - (depth + 1) + 1 := by omega
  have hnext : (c.advance 1).rest = rest := by rw [Cursor.advance, hrest]; rfl
  rw [hlevels]
  refine (h.mono (rest_skipSpace _)).opened hb ?_
  rw [hnext, hrest]

/-- An opening that is one too many. -/
theorem within_tooDeep {α : Type} {limit depth : Nat} {c : Cursor} {b : Char} {rest : List Char}
    (hrest : c.rest = b :: rest) (hb : (b == '[' || b == '\x7b') = true)
    (hdepth : limit ≤ depth) (container : Container) :
    Within c.rest (limit - depth)
      (.error (.tooDeep container) : Except ReadError (α × Cursor)) := by
  have hone : openings (b :: rest) = openings rest + 1 := List.countP_cons_of_pos hb
  change limit - depth < openings c.rest
  rw [hrest, hone]
  omega

/-- Every part of the reader, with this much fuel, stays within the text and its limits. -/
structure ReadsWithin (limit fuel : Nat) : Prop where
  /-- A value. -/
  value : ∀ depth c, Within c.rest (limit - depth) (readValue limit fuel depth c)
  /-- What follows in a list. -/
  items : ∀ depth c, Within c.rest (limit - depth) (readItems limit fuel depth c)
  /-- What follows in an object. -/
  members : ∀ depth c, Within c.rest (limit - depth) (readMembers limit fuel depth c)

section

variable {limit fuel : Nat} (ih : ReadsWithin limit fuel)

include ih

theorem ReadsWithin.readValue (depth : Nat) (c : Cursor) :
    Within c.rest (limit - depth) (readValue limit (fuel + 1) depth c) := by
  have hempty : ((c.advance 1).skipSpace.advance 1).rest <:+ c.rest :=
    (rest_advance _ _).trans ((rest_skipSpace _).trans (rest_advance _ _))
  unfold Json.readValue
  split
  · exact ((within_readString _ _ _ _ _).mono (rest_advance _ _)).bind fun _ _ hd => hd
  · rename_i hrest
    split
    · rename_i hdepth
      exact within_tooDeep hrest rfl hdepth _
    · rename_i hdepth
      dsimp only
      split
      · exact hempty
      · exact (Within.inside hrest rfl hdepth (ih.items _ _)).bind fun _ _ hd => hd
  · rename_i hrest
    split
    · rename_i hdepth
      exact within_tooDeep hrest rfl hdepth _
    · rename_i hdepth
      dsimp only
      split
      · exact hempty
      · exact (Within.inside hrest rfl hdepth (ih.members _ _)).bind fun _ _ hd => hd
  · exact within_readScalar _ c

theorem ReadsWithin.readItems (depth : Nat) (c : Cursor) :
    Within c.rest (limit - depth) (readItems limit (fuel + 1) depth c) := by
  unfold Json.readItems
  refine (ih.value depth c).bind fun _ d hd => ?_
  have hd' : d.skipSpace.rest <:+ c.rest := (rest_skipSpace d).trans hd
  dsimp only
  split
  · exact (rest_advance _ _).trans hd'
  · exact ((ih.items depth _).skip.mono hd').bind fun _ _ he => he
  · trivial

theorem ReadsWithin.readMembers (depth : Nat) (c : Cursor) :
    Within c.rest (limit - depth) (readMembers limit (fuel + 1) depth c) := by
  unfold Json.readMembers
  split
  · refine ((within_readString _ _ _ _ _).mono (rest_advance _ _)).bind fun _ d hd => ?_
    have hd' : d.skipSpace.rest <:+ c.rest := (rest_skipSpace d).trans hd
    dsimp only
    split
    · refine ((ih.value depth _).skip.mono hd').bind fun _ e he => ?_
      have he' : e.skipSpace.rest <:+ c.rest := (rest_skipSpace e).trans he
      dsimp only
      split
      · exact (rest_advance _ _).trans he'
      · exact ((ih.members depth _).skip.mono he').bind fun _ _ hf => hf
      · trivial
    · trivial
  · trivial

end

/-- Every part of the reader stays within the text and its limits, at every depth. -/
theorem within_read (limit fuel : Nat) : ReadsWithin limit fuel := by
  induction fuel with
  | zero => exact ⟨fun _ _ => trivial, fun _ _ => trivial, fun _ _ => trivial⟩
  | succ fuel ih => exact ⟨ih.readValue, ih.readItems, ih.readMembers⟩

/-- Reading a document stays within the limits. -/
theorem within_parse {limit : Nat} {text : List Char} {e : ReadError}
    (h : parse text limit = .error e) :
    Within text limit (.error e : Except ReadError (Json × Cursor)) := by
  unfold parse at h
  split at h
  · cases h
    trivial
  · have hread := ((within_read limit (2 * text.length + 2)).value 0
      (Cursor.mk text 0).skipSpace).mono (rest_skipSpace _)
    cases hvalue : readValue limit (2 * text.length + 2) 0 (Cursor.mk text 0).skipSpace with
    | error d =>
        rw [hvalue] at h hread
        cases h
        exact hread
    | ok r =>
        rw [hvalue] at h
        simp only [bind, Except.bind] at h
        split at h
        · cases h
        · cases h
          trivial

/-- **An integer that is too long** can be seen in the text: it has a run of as many digits. -/
theorem of_parse_eq_hugeInteger {limit : Nat} {text : List Char} {n : Nat}
    (h : parse text limit = .error (.hugeInteger n)) : HasLongRun n text := within_parse h

/-- **Containers that are nested too deeply** can be seen in the text: there are more openings than
levels. -/
theorem of_parse_eq_tooDeep {limit : Nat} {text : List Char} {container : Container}
    (h : parse text limit = .error (.tooDeep container)) : limit < openings text := within_parse h

end Cohesion.Json
