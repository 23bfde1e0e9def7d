/-
The limits of reading TOML documents.

A document is not read because it is malformed, or because it is beyond one of two limits of the
reader.  Both limits can be seen in the text: an integer with too many digits is a long run of
digits and underscores, and lists and tables that are nested too deeply are opened by many brackets
and braces.

Main definitions:
* `Toml.HasLongRun` — a text has a run with too many digits for an integer;
* `Toml.openings` — the number of brackets and braces that open a list or a table;
* `Toml.Within` — what reading from the front of a text may lead to.

Main results:
* `Toml.within_read` — values, lists and tables stay within the text and its limits;
* `Toml.within_readStatements` — so do statements;
* `Toml.of_parse_eq_hugeInteger`, `Toml.of_parse_eq_tooDeep` — **the limits can be seen in the
  text**.
-/
import Cohesion.Toml.Document
import Mathlib.Data.List.Infix

set_option autoImplicit false

namespace Cohesion.Toml

/-- A text has a run of digits and underscores with `n` digits, too many for an integer. -/
def HasLongRun (n : Nat) (text : List Char) : Prop :=
  digitLimit < n ∧
    ∃ run, run <:+: text ∧ run.countP Char.isDigit = n ∧ ∀ c ∈ run, c.isDigit = true ∨ c = '_'

/-- The number of brackets and braces that open a list or a table. -/
def openings (text : List Char) : Nat := text.countP fun c => c == '[' || c == '\x7b'

/-- The weight of the heavier container: a list or a table. -/
def Nesting.heaviest (nesting : Nesting) : Nat := max nesting.list nesting.table

/-- Reading from the front of a text, inside lists and tables of a weight, ends inside the text, or
because it is malformed, or because of a limit: there is a long run of digits, or the openings are
too many for the weight that is left.  Where it ends is told by `rest`. -/
def Within {α : Type} (nesting : Nesting) (text : List Char) (weight : Nat)
    (rest : α → List Char) : Except Failure α → Prop
  | .ok a => rest a <:+ text
  | .error (.malformed _ _) => True
  | .error (.hugeInteger n) => HasLongRun n text
  | .error .tooDeep => nesting.limit < weight + nesting.heaviest * openings text

variable {nesting : Nesting} {α β : Type} {text text' cs : List Char} {weight : Nat}

theorem HasLongRun.mono {n : Nat} (h : HasLongRun n text) (hsuffix : text <:+ text') :
    HasLongRun n text' := by
  obtain ⟨hlong, run, hinfix, hrest⟩ := h
  exact ⟨hlong, run, hinfix.trans hsuffix.isInfix, hrest⟩

theorem openings_le (h : text <:+ text') : openings text ≤ openings text' := h.sublist.countP_le

/-- What follows the first character of an end of a text is an end of it. -/
theorem suffix_of_cons {c : Char} (h : c :: cs <:+ text) : cs <:+ text :=
  (List.suffix_cons c cs).trans h

namespace Within

variable {rest : α → List Char} {rest' : β → List Char} {r : Except Failure α}

theorem mono (h : Within nesting text weight rest r) (hsuffix : text <:+ text') :
    Within nesting text' weight rest r := by
  match r, h with
  | .ok _, h => exact h.trans hsuffix
  | .error (.malformed _ _), _ => trivial
  | .error (.hugeInteger _), h => exact HasLongRun.mono h hsuffix
  | .error .tooDeep, h =>
      have hle := Nat.mul_le_mul_left nesting.heaviest (openings_le hsuffix)
      exact lt_of_lt_of_le h (Nat.add_le_add_left hle weight)

/-- Behind an opening less weight is left. -/
theorem opened {c : Char} {w : Nat} (h : Within nesting text (weight + w) rest r)
    (hc : (c == '[' || c == '\x7b') = true) (hweight : w ≤ nesting.heaviest)
    (hsuffix : c :: text <:+ text') : Within nesting text' weight rest r := by
  match r, h with
  | .ok _, h => exact h.trans (suffix_of_cons hsuffix)
  | .error (.malformed _ _), _ => trivial
  | .error (.hugeInteger _), h => exact HasLongRun.mono h (suffix_of_cons hsuffix)
  | .error .tooDeep, h =>
      have hone : openings (c :: text) = openings text + 1 := List.countP_cons_of_pos hc
      have hle := Nat.mul_le_mul_left nesting.heaviest (openings_le hsuffix)
      rw [hone, Nat.mul_add, Nat.mul_one] at hle
      change nesting.limit < weight + w + nesting.heaviest * openings text at h
      change nesting.limit < weight + nesting.heaviest * openings text'
      omega

theorem bind {f : α → Except Failure β} (h : Within nesting text weight rest r)
    (hf : ∀ a, rest a <:+ text → Within nesting text weight rest' (f a)) :
    Within nesting text weight rest' (r >>= f) := by
  match r, h with
  | .ok a, h => exact hf a h
  | .error (.malformed _ _), _ => trivial
  | .error (.hugeInteger _), h => exact h
  | .error .tooDeep, h => exact h

theorem map {f : α → β} (h : Within nesting text weight rest r) (hf : ∀ a, rest' (f a) = rest a) :
    Within nesting text weight rest' (r.map f) := by
  match r, h with
  | .ok a, h =>
      change rest' (f a) <:+ text
      rw [hf a]
      exact h
  | .error (.malformed _ _), _ => trivial
  | .error (.hugeInteger _), h => exact h
  | .error .tooDeep, h => exact h

end Within

/-! ### Blanks and comments -/

theorem skipSpace_suffix (cs : List Char) : skipSpace cs <:+ cs := List.dropWhile_suffix _

theorem skipLines_suffix (cs : List Char) : skipLines cs <:+ cs := List.dropWhile_suffix _

/-- What follows a character behind blanks. -/
theorem suffix_of_skipSpace {c : Char} {rest : List Char} (h : skipSpace cs = c :: rest) :
    rest <:+ cs := suffix_of_cons (h ▸ skipSpace_suffix cs)

/-- A check leads nowhere. -/
theorem within_checkInvalid (invalid : Char → Bool) (count : Nat) (cs : List Char) :
    Within nesting text weight (fun _ => []) (checkInvalid invalid count cs) := by
  unfold checkInvalid
  dsimp only
  split
  · split
    · trivial
    · exact List.nil_suffix
  · exact List.nil_suffix

theorem within_skipComment (weight : Nat) (cs : List Char) :
    Within nesting cs weight id (skipComment cs) := by
  unfold skipComment
  split
  · exact (within_checkInvalid _ _ _).bind fun _ _ =>
      (List.drop_suffix _ _).trans (List.suffix_cons _ _)
  · exact List.suffix_refl _

theorem within_skipBetween (weight fuel : Nat) (cs : List Char) :
    Within nesting cs weight id (skipBetween fuel cs) := by
  induction fuel generalizing cs with
  | zero => exact List.suffix_refl _
  | succ fuel ih =>
      unfold skipBetween
      refine ((within_skipComment weight _).mono (skipLines_suffix cs)).bind fun after hafter => ?_
      split
      · exact List.suffix_refl _
      · exact (ih after).mono hafter

/-! ### Texts -/

theorem within_readHex (weight count : Nat) (cs : List Char) :
    Within nesting cs weight Prod.snd (readHex count cs) := by
  unfold readHex
  dsimp only
  split
  · trivial
  · split
    · exact List.drop_suffix _ _
    · trivial

theorem within_readEscape (weight : Nat) (multiline : Bool) (cs : List Char) :
    Within nesting cs weight Prod.snd (readEscape multiline cs) := by
  unfold readEscape
  split
  case h_8 => exact ((within_readHex weight 4 _).mono (List.suffix_cons _ _)).map fun _ => rfl
  case h_9 => exact ((within_readHex weight 8 _).mono (List.suffix_cons _ _)).map fun _ => rfl
  case h_10 => trivial
  case h_11 =>
    split
    · exact (skipLines_suffix _).trans (List.suffix_cons _ _)
    · split
      · split
        · exact List.nil_suffix
        · rename_i heq
          exact (skipLines_suffix _).trans
            ((suffix_of_skipSpace heq).trans (List.suffix_cons _ _))
        · trivial
      · trivial
  all_goals exact List.suffix_cons _ _

theorem within_readBasicFrom (weight fuel : Nat) (multiline : Bool) (done cs : List Char) :
    Within nesting cs weight Prod.snd (readBasicFrom multiline done fuel cs) := by
  -- each step goes on behind the characters that it has looked at
  fun_induction readBasicFrom multiline done fuel cs with
  | case1 => trivial
  | case2 => trivial
  | case3 => exact List.suffix_cons _ _
  | case4 => exact List.suffix_append ['"', '"', '"'] _
  | case5 _ _ _ _ _ ih => exact ih.mono (List.suffix_cons _ _)
  | case6 _ _ _ ih =>
      exact ((within_readEscape weight _ _).mono (List.suffix_cons _ _)).bind fun _ h =>
        (ih _ _).mono h
  | case7 => trivial
  | case8 _ _ _ _ _ _ _ ih => exact ih.mono (List.suffix_cons _ _)

theorem within_readBasic (weight : Nat) (multiline : Bool) (cs : List Char) :
    Within nesting cs weight Prod.snd (readBasic multiline cs) := within_readBasicFrom ..

theorem within_readLiteral (weight : Nat) (multiline : Bool) (cs : List Char) :
    Within nesting cs weight Prod.snd (readLiteral multiline cs) := by
  unfold readLiteral
  dsimp only
  split
  · trivial
  · exact (within_checkInvalid _ _ _).bind fun _ _ => List.drop_suffix _ _

theorem within_readMultiline (weight : Nat) (quote : Char) (cs : List Char) :
    Within nesting cs weight Prod.snd (readMultiline quote cs) := by
  have hquotes (r : List Char × List Char) (h : r.2 <:+ cs) :
      (addQuotes quote r.1 r.2).2 <:+ cs := (List.drop_suffix _ _).trans h
  unfold readMultiline
  dsimp only
  split
  · refine ((within_readBasic weight true _).mono ?_).bind hquotes
    split
    · exact List.suffix_cons _ _
    · exact List.suffix_refl _
  · refine ((within_readLiteral weight true _).mono ?_).bind hquotes
    split
    · exact List.suffix_cons _ _
    · exact List.suffix_refl _

/-! ### Keys -/

theorem within_readKeyPart (weight : Nat) (cs : List Char) :
    Within nesting cs weight Prod.snd (readKeyPart cs) := by
  unfold readKeyPart
  split
  · exact ((within_readLiteral weight _ _).mono (List.suffix_cons _ _)).map fun _ => rfl
  · exact ((within_readBasic weight _ _).mono (List.suffix_cons _ _)).map fun _ => rfl
  · split
    · trivial
    · exact List.dropWhile_suffix _

theorem within_readKeyFrom (weight fuel : Nat) (cs : List Char) :
    Within nesting cs weight Prod.snd (readKeyFrom fuel cs) := by
  induction fuel generalizing cs with
  | zero => trivial
  | succ fuel ih =>
      unfold readKeyFrom
      refine (within_readKeyPart weight cs).bind ?_
      rintro ⟨part, rest⟩ hrest
      dsimp only at hrest ⊢
      split
      · rename_i heq
        have hdot := (suffix_of_skipSpace heq).trans hrest
        exact ((ih _).mono ((skipSpace_suffix _).trans hdot)).bind fun _ h => h
      · exact (skipSpace_suffix rest).trans hrest

theorem within_readKey (weight : Nat) (cs : List Char) :
    Within nesting cs weight Prod.snd (readKey cs) := within_readKeyFrom ..

theorem within_readKeyEquals (weight : Nat) (cs : List Char) :
    Within nesting cs weight Prod.snd (readKeyEquals cs) := by
  unfold readKeyEquals
  refine (within_readKey weight cs).bind ?_
  rintro ⟨key, rest⟩ hrest
  dsimp only at hrest ⊢
  split
  · exact (skipSpace_suffix _).trans (suffix_of_cons hrest)
  · trivial

/-! ### Dates and times -/

/-- What was found at the front of a text is followed by an end of the text, told by `e`. -/
def EndsIn (text : List Char) (e : α → List Char) (r : Option α) : Prop :=
  ∀ a ∈ r, e a <:+ text

namespace EndsIn

variable {e : α → List Char} {e' : β → List Char} {r : Option α}

theorem none : EndsIn text e none := nofun

theorem some {a : α} (h : e a <:+ text) : EndsIn text e (some a) := by
  rintro _ ⟨⟩
  exact h

theorem mono (h : EndsIn text e r) (hsuffix : text <:+ text') : EndsIn text' e r :=
  fun a ha => (h a ha).trans hsuffix

theorem bind {f : α → Option β} (h : EndsIn text e r)
    (hf : ∀ a, e a <:+ text → EndsIn text e' (f a)) : EndsIn text e' (r >>= f) := by
  cases r with
  | none => exact none
  | some a => exact hf a (h a rfl)

theorem map {f : α → β} (h : EndsIn text e r) (hf : ∀ a, e' (f a) = e a) :
    EndsIn text e' (r.map f) := by
  cases r with
  | none => exact none
  | some a => exact some ((hf a).symm ▸ h a rfl)

theorem getD {a : α} (h : EndsIn text e r) (ha : e a <:+ text) :
    e (r.getD a) <:+ text := by
  cases r with
  | none => exact ha
  | some b => exact h b rfl

end EndsIn

theorem endsIn_fixedDigits? (count least greatest : Nat) (cs : List Char) :
    EndsIn cs Prod.snd (fixedDigits? count least greatest cs) := by
  unfold fixedDigits?
  dsimp only
  split
  · exact .some (List.drop_suffix _ _)
  · exact .none

theorem endsIn_char? (c : Char) (cs : List Char) : EndsIn cs id (char? c cs) := by
  unfold char?
  split
  · exact .none
  · split
    · exact .some (List.suffix_cons _ _)
    · exact .none

/-- A number behind a character. -/
theorem EndsIn.next {c : Char} {count least greatest : Nat} {f : Nat × List Char → Option β}
    {rest' : β → List Char} (hcs : cs <:+ text)
    (hf : ∀ n rest, rest <:+ text → EndsIn text rest' (f (n, rest))) :
    EndsIn text rest' (char? c cs >>= fun cs => fixedDigits? count least greatest cs >>= f) :=
  ((endsIn_char? c cs).mono hcs).bind fun _ h =>
    ((endsIn_fixedDigits? _ _ _ _).mono h).bind fun found => hf found.1 found.2

theorem readMicros_suffix (cs : List Char) : (readMicros cs).2 <:+ cs := by
  unfold readMicros
  split
  · dsimp only
    split
    · exact List.suffix_refl _
    · exact (List.dropWhile_suffix _).trans (List.suffix_cons _ _)
  · exact List.suffix_refl _

theorem endsIn_readTime? (cs : List Char) : EndsIn cs Prod.snd (readTime? cs) := by
  unfold readTime?
  refine (endsIn_fixedDigits? _ _ _ _).bind fun found h => ?_
  refine EndsIn.next h fun minute rest h => ?_
  refine EndsIn.next h fun second rest h => ?_
  exact .some ((readMicros_suffix rest).trans h)

theorem endsIn_readDate? (cs : List Char) : EndsIn cs Prod.snd (readDate? cs) := by
  unfold readDate?
  refine (endsIn_fixedDigits? _ _ _ _).bind fun found h => ?_
  refine EndsIn.next h fun month rest h => ?_
  exact EndsIn.next h fun day rest h => .some h

theorem readOffset_suffix (cs : List Char) : (readOffset cs).2 <:+ cs := by
  unfold readOffset
  dsimp only
  split
  case h_1 => exact List.suffix_cons _ _
  case h_2 => exact List.suffix_cons _ _
  case h_3 | h_4 =>
    refine EndsIn.getD (e := Prod.snd) (EndsIn.map (e := Prod.snd) ?_ fun _ => rfl)
      (List.suffix_refl _)
    refine ((endsIn_fixedDigits? _ _ _ _).mono (List.suffix_cons _ _)).bind fun found h => ?_
    exact EndsIn.next h fun minutes rest h => .some h
  case h_5 => exact List.suffix_refl _

theorem endsIn_timeAfterDate? (cs : List Char) : EndsIn cs Prod.snd (timeAfterDate? cs) := by
  unfold timeAfterDate?
  split
  · split
    · exact (endsIn_readTime? _).mono (List.suffix_cons _ _)
    · exact .none
  · exact .none

theorem endsIn_readMoment? (cs : List Char) : EndsIn cs Prod.snd (readMoment? cs) := by
  unfold readMoment?
  split
  · exact (endsIn_readTime? cs).map fun _ => rfl
  · rename_i hdate
    have hdate := endsIn_readDate? cs _ hdate
    split
    · exact .some hdate
    · rename_i htime
      have htime := (endsIn_timeAfterDate? _ _ htime).trans hdate
      exact .some ((readOffset_suffix _).trans htime)

/-! ### Numbers -/

/-- Digits that were read are those of a run of digits and underscores. -/
theorem exists_run_moreDigits (isDigit : Char → Bool) (cs : List Char) :
    ∃ run, cs = run ++ (moreDigits isDigit cs).2 ∧
      run.filter isDigit = (moreDigits isDigit cs).1 ∧
        ∀ c ∈ run, isDigit c = true ∨ c = '_' := by
  fun_induction moreDigits isDigit cs with
  | case1 => exact ⟨[], rfl, rfl, nofun⟩
  | case2 c rest hdigit digits after heq ih =>
      obtain ⟨run, hsplit, hfilter, hchars⟩ := ih
      rw [heq] at hsplit hfilter
      refine ⟨c :: run, by rw [hsplit, List.cons_append], ?_, ?_⟩
      · rw [List.filter_cons_of_pos hdigit, hfilter]
      · exact List.forall_mem_cons.2 ⟨Or.inl hdigit, hchars⟩
  | case3 c rest hdigit hunder ih =>
      obtain ⟨run, hsplit, hfilter, hchars⟩ := ih
      rw [Bool.and_eq_true, beq_iff_eq] at hunder
      refine ⟨c :: run, by rw [List.cons_append, ← hsplit], ?_, ?_⟩
      · rw [List.filter_cons_of_neg hdigit, hfilter]
      · exact List.forall_mem_cons.2 ⟨Or.inr hunder.1, hchars⟩
  | case4 c rest hdigit hunder => exact ⟨[], rfl, rfl, nofun⟩

theorem exists_run_digitRun (isDigit : Char → Bool) (cs : List Char) :
    ∃ run, cs = run ++ (digitRun isDigit cs).2 ∧ run.filter isDigit = (digitRun isDigit cs).1 ∧
      ∀ c ∈ run, isDigit c = true ∨ c = '_' := by
  unfold digitRun
  split
  · exact exists_run_moreDigits isDigit cs
  · exact ⟨[], rfl, rfl, nofun⟩

theorem suffix_of_digitRun {isDigit : Char → Bool} {digits after : List Char}
    (h : digitRun isDigit cs = (digits, after)) : after <:+ cs := by
  obtain ⟨run, hsplit, -⟩ := exists_run_digitRun isDigit cs
  rw [h] at hsplit
  exact ⟨run, hsplit.symm⟩

theorem readSign_suffix (cs : List Char) : (readSign cs).2 <:+ cs := by
  unfold readSign
  split
  · exact List.suffix_cons _ _
  · exact List.suffix_cons _ _
  · exact List.suffix_refl _

theorem endsIn_readBased? (cs : List Char) : EndsIn cs Prod.snd (readBased? cs) := by
  unfold readBased?
  dsimp only
  split
  case h_4 => exact .none
  all_goals
    split
    · exact .none
    · rename_i heq
      exact .some ((suffix_of_digitRun heq).trans (List.suffix_append ['0', _] _))

theorem readFraction_suffix (cs : List Char) : (readFraction cs).2 <:+ cs := by
  unfold readFraction
  split
  · split
    · exact List.suffix_refl _
    · exact (suffix_of_digitRun rfl).trans (List.suffix_cons _ _)
  · exact List.suffix_refl _

theorem readPower_suffix (cs : List Char) : (readPower cs).2 <:+ cs := by
  unfold readPower
  split
  · split
    · dsimp only
      split
      · exact List.suffix_refl _
      · rename_i heq
        exact ((suffix_of_digitRun heq).trans (readSign_suffix _)).trans (List.suffix_cons _ _)
    · exact List.suffix_refl _
  · exact List.suffix_refl _

/-- The digits of a whole number are those of a run. -/
theorem exists_run_wholeDigits? {digits after : List Char}
    (h : wholeDigits? cs = some (digits, after)) :
    ∃ run, cs = run ++ after ∧ run.filter Char.isDigit = digits ∧
      ∀ c ∈ run, c.isDigit = true ∨ c = '_' := by
  unfold wholeDigits? at h
  split at h
  · cases h
    exact ⟨['0'], rfl, rfl, List.forall_mem_singleton.2 (Or.inl rfl)⟩
  · split at h
    · cases h
    · have hrun := exists_run_digitRun Char.isDigit cs
      rwa [Option.some.inj h] at hrun

/-- A number in base ten is followed by an end of the text, and if it cannot be read it has too many
digits. -/
theorem of_readDecimal?_eq_some {value : Except Failure Toml} {rest : List Char}
    (h : readDecimal? cs = some (value, rest)) :
    rest <:+ cs ∧ ∀ e, value = .error e → ∃ n, e = .hugeInteger n ∧ HasLongRun n cs := by
  unfold readDecimal? at h
  dsimp only at h
  cases hwhole : wholeDigits? (readSign cs).2 with
  | none =>
      rw [hwhole] at h
      cases h
  | some found =>
      obtain ⟨whole, after⟩ := found
      rw [hwhole] at h
      obtain ⟨run, hsplit, hdigits, hchars⟩ := exists_run_wholeDigits? hwhole
      have hafter : after <:+ cs :=
        List.IsSuffix.trans ⟨run, hsplit.symm⟩ (readSign_suffix cs)
      have hrest : (readPower (readFraction after).2).2 <:+ cs :=
        ((readPower_suffix _).trans (readFraction_suffix _)).trans hafter
      have hinfix : run <:+: cs :=
        (List.IsPrefix.isInfix ⟨after, hsplit.symm⟩).trans (readSign_suffix cs).isInfix
      have hlength : run.countP Char.isDigit = whole.length := by
        rw [List.countP_eq_length_filter, hdigits]
      simp only [Option.bind_eq_bind, Option.bind_some] at h
      split at h
      · cases h
        refine ⟨hrest, fun e he => ?_⟩
        split at he
        · rename_i hlong
          cases he
          exact ⟨_, rfl, hlong, run, hinfix, hlength, hchars⟩
        · cases he
      · cases h
        exact ⟨hrest, nofun⟩

theorem endsIn_readNamed? (cs : List Char) : EndsIn cs Prod.snd (readNamed? cs) := by
  unfold readNamed?
  dsimp only
  split
  · exact .some ((List.drop_suffix _ _).trans (readSign_suffix cs))
  · split
    · exact .some ((List.drop_suffix _ _).trans (readSign_suffix cs))
    · exact .none

/-- A number is followed by an end of the text, and if it cannot be read it has too many digits. -/
theorem of_readNumber?_eq_some {value : Except Failure Toml} {rest : List Char}
    (h : readNumber? cs = some (value, rest)) :
    rest <:+ cs ∧ ∀ e, value = .error e → ∃ n, e = .hugeInteger n ∧ HasLongRun n cs := by
  unfold readNumber? at h
  split at h
  · rename_i hbased
    cases h
    exact ⟨endsIn_readBased? cs _ hbased, nofun⟩
  · split at h
    · rename_i hdecimal
      cases h
      exact of_readDecimal?_eq_some hdecimal
    · obtain ⟨found, hfound, heq⟩ := Option.map_eq_some_iff.1 h
      cases heq
      exact ⟨endsIn_readNamed? cs _ hfound, nofun⟩

/-! ### Values -/

theorem within_addInline (t : Table) (frozen : List (List String)) (key : List String)
    (value : Toml) (left : List Char) :
    Within nesting text weight (fun _ => []) (addInline t frozen key value left) := by
  unfold addInline
  dsimp only
  split
  · trivial
  · split
    · trivial
    · split
      · trivial
      · exact List.nil_suffix

theorem within_readScalar (weight : Nat) (cs : List Char) :
    Within nesting cs weight Prod.snd (readScalar cs) := by
  unfold readScalar
  dsimp only
  split
  case h_1 => exact ((within_readMultiline weight '"' _).mono
    (List.suffix_append ['"', '"', '"'] _)).map fun _ => rfl
  case h_2 => exact ((within_readBasic weight false _).mono (List.suffix_cons _ _)).map fun _ => rfl
  case h_3 => exact ((within_readMultiline weight '\'' _).mono
    (List.suffix_append ['\'', '\'', '\''] _)).map fun _ => rfl
  case h_4 =>
    exact ((within_readLiteral weight false _).mono (List.suffix_cons _ _)).map fun _ => rfl
  case h_5 => exact List.suffix_append ['t', 'r', 'u', 'e'] _
  case h_6 => exact List.suffix_append ['f', 'a', 'l', 's', 'e'] _
  case h_7 =>
    split
    · rename_i hmoment
      split
      · exact endsIn_readMoment? cs _ hmoment
      · trivial
    · split
      · rename_i hnumber
        exact (of_readNumber?_eq_some hnumber).1
      · rename_i hnumber
        obtain ⟨n, rfl, hlong⟩ := (of_readNumber?_eq_some hnumber).2 _ rfl
        exact hlong
      · trivial

/-- Values, lists and tables that are read with this much fuel stay within the text and its
limits. -/
structure ReadsWithin (nesting : Nesting) (fuel : Nat) : Prop where
  /-- A value. -/
  value : ∀ weight cs, Within nesting cs weight Prod.snd (readValue nesting weight fuel cs)
  /-- What follows in a list. -/
  items : ∀ weight cs, Within nesting cs weight Prod.snd (readItems nesting weight fuel cs)
  /-- What follows in an inline table. -/
  inline : ∀ weight t frozen cs,
    Within nesting cs weight Prod.snd (readInline nesting weight fuel t frozen cs)

section

variable {fuel : Nat} (ih : ReadsWithin nesting fuel)

include ih

theorem ReadsWithin.readValue (weight : Nat) (cs : List Char) :
    Within nesting cs weight Prod.snd (readValue nesting weight (fuel + 1) cs) := by
  unfold Toml.readValue
  split
  · rename_i hdeep
    exact lt_of_lt_of_le hdeep (Nat.le_add_right _ _)
  · split
    · refine Within.opened (w := nesting.list) ?_ rfl (le_max_left _ _) (List.suffix_refl _)
      refine (within_skipBetween _ _ _).bind fun rest hrest => ?_
      exact ((ih.items _ _).mono hrest).bind fun _ h => h
    · split
      · rename_i heq
        exact (suffix_of_skipSpace heq).trans (List.suffix_cons _ _)
      · refine Within.opened (w := nesting.table) ?_ rfl (le_max_right _ _) (List.suffix_refl _)
        exact ((ih.inline _ _ _ _).mono (skipSpace_suffix _)).bind fun _ h => h
    · exact within_readScalar weight cs

theorem ReadsWithin.readItems (weight : Nat) (cs : List Char) :
    Within nesting cs weight Prod.snd (readItems nesting weight (fuel + 1) cs) := by
  unfold Toml.readItems
  split
  · exact List.suffix_cons _ _
  · refine (ih.value weight _).bind fun found hfound => ?_
    refine ((within_skipBetween _ _ _).mono hfound).bind fun rest hrest => ?_
    split
    · exact suffix_of_cons hrest
    · refine ((within_skipBetween _ _ _).mono (suffix_of_cons hrest)).bind ?_
      exact fun rest hrest => ((ih.items _ _).mono hrest).bind fun _ h => h
    · trivial

theorem ReadsWithin.readInline (weight : Nat) (t : Table) (frozen : List (List String))
    (cs : List Char) :
    Within nesting cs weight Prod.snd (readInline nesting weight (fuel + 1) t frozen cs) := by
  unfold Toml.readInline
  refine (within_readKeyEquals weight cs).bind fun key hkey => ?_
  refine ((ih.value weight _).mono hkey).bind fun value hrest => ?_
  refine (within_addInline _ _ _ _ _).bind fun t _ => ?_
  dsimp only
  split
  · rename_i heq
    exact (suffix_of_skipSpace heq).trans hrest
  · rename_i heq
    exact (ih.inline _ _ _ _).mono
      ((skipSpace_suffix _).trans ((suffix_of_skipSpace heq).trans hrest))
  · trivial

end

/-- Values, lists and tables stay within the text and its limits, at every weight. -/
theorem within_read (nesting : Nesting) (fuel : Nat) : ReadsWithin nesting fuel := by
  induction fuel with
  | zero => exact ⟨fun _ _ => trivial, fun _ _ => trivial, fun _ _ _ _ => trivial⟩
  | succ fuel ih => exact ⟨ih.readValue, ih.readItems, ih.readInline⟩

/-! ### Statements -/

theorem within_readTableHeader (p : Progress) (cs : List Char) :
    Within nesting cs weight Prod.snd (readTableHeader p cs) := by
  unfold readTableHeader
  refine ((within_readKey weight _).mono (skipSpace_suffix cs)).bind fun key hkey => ?_
  dsimp only
  split
  · trivial
  · split
    · trivial
    · split
      · rename_i heq
        exact suffix_of_cons (heq ▸ hkey)
      · trivial

theorem within_readListHeader (p : Progress) (cs : List Char) :
    Within nesting cs weight Prod.snd (readListHeader p cs) := by
  unfold readListHeader
  refine ((within_readKey weight _).mono (skipSpace_suffix cs)).bind fun key hkey => ?_
  dsimp only
  split
  · trivial
  · split
    · trivial
    · split
      · rename_i heq
        exact suffix_of_cons (suffix_of_cons (heq ▸ hkey))
      · trivial

theorem within_readAssignment (p : Progress) (cs : List Char) :
    Within nesting cs 0 Prod.snd (readAssignment nesting p cs) := by
  unfold readAssignment
  refine (within_readKeyEquals 0 cs).bind fun key hkey => ?_
  refine (((within_read nesting _).value 0 _).mono hkey).bind fun value hrest => ?_
  dsimp only
  split
  · trivial
  · split
    · trivial
    · split
      · trivial
      · split
        · trivial
        · exact hrest

theorem within_readStatement (p : Progress) (cs : List Char) :
    Within nesting cs 0 Prod.snd (readStatement nesting p cs) := by
  unfold readStatement
  split
  · exact (within_readListHeader _ _).mono (List.suffix_append ['[', '['] _)
  · exact (within_readTableHeader _ _).mono (List.suffix_cons _ _)
  · exact List.suffix_refl _
  · split
    · exact within_readAssignment p _
    · trivial
  · exact List.suffix_refl _

/-- The statements of a document stay within the text and its limits. -/
theorem within_readStatements (nesting : Nesting) (fuel : Nat) (p : Progress) (cs : List Char) :
    Within nesting cs 0 (fun _ => []) (readStatements nesting fuel p cs) := by
  induction fuel generalizing p cs with
  | zero => exact List.nil_suffix
  | succ fuel ih =>
      unfold readStatements
      split
      · exact List.nil_suffix
      · rename_i heq
        exact (ih p _).mono (suffix_of_skipSpace heq)
      · refine ((within_readStatement p _).mono (skipSpace_suffix cs)).bind fun next hnext => ?_
        dsimp only
        refine ((within_skipComment 0 _).mono ((skipSpace_suffix _).trans hnext)).bind
          fun rest hrest => ?_
        split
        · exact List.nil_suffix
        · exact (ih _ _).mono (suffix_of_cons hrest)
        · trivial

/-! ### Documents -/

/-- What makes reading a document fail stays within the limits. -/
theorem exists_failure {e : ReadError} (h : parse cs nesting = .error e) :
    ∃ f : Failure, e = .ofFailure (joinLineEnds cs) f ∧
      Within nesting (joinLineEnds cs) 0 (fun _ : Table => []) (.error f) := by
  have hwithin := within_readStatements nesting ((joinLineEnds cs).length + 1) {} (joinLineEnds cs)
  unfold parse at h
  dsimp only at h
  cases hread : readStatements nesting ((joinLineEnds cs).length + 1) {} (joinLineEnds cs) with
  | ok t =>
      rw [hread] at h
      cases h
  | error f =>
      rw [hread] at h hwithin
      cases h
      exact ⟨f, rfl, hwithin⟩

/-- **An integer that is too long** can be seen in the text: it has a run with as many digits. -/
theorem of_parse_eq_hugeInteger {n : Nat} (h : parse cs nesting = .error (.hugeInteger n)) :
    HasLongRun n (joinLineEnds cs) := by
  obtain ⟨f, he, hwithin⟩ := exists_failure h
  cases f with
  | malformed cause left => cases he
  | hugeInteger digits =>
      cases he
      exact hwithin
  | tooDeep => cases he

/-- **Lists and tables that are nested too deeply** can be seen in the text: the openings weigh more
than the limit. -/
theorem of_parse_eq_tooDeep (h : parse cs nesting = .error .tooDeep) :
    nesting.limit < nesting.heaviest * openings (joinLineEnds cs) := by
  obtain ⟨f, he, hwithin⟩ := exists_failure h
  cases f with
  | malformed cause left => cases he
  | hugeInteger digits => cases he
  | tooDeep =>
      change nesting.limit < 0 + nesting.heaviest * openings (joinLineEnds cs) at hwithin
      rwa [Nat.zero_add] at hwithin

end Cohesion.Toml
