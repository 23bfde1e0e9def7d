/-
Strings of JSON documents.

By the standard a string stands between quotes, and each of its characters stands for itself or is
written as an escape.  What the writer makes of a text is such a string, and the reader gets the
text back, whatever its characters are: a character beyond the basic plane is written as two escapes
and read back from them.

Main definitions:
* `Json.IsStringText` — a string as the standard has it;
* `Json.CharText` — the ways in which the writer may write a character.

Main results:
* `Json.charText_writeChar` — the writer writes each character in one of these ways;
* `Json.isStringText_writeString` — **a written text is a string of the standard**;
* `Json.readString_flatMap` — **a written text is read back**.
-/
import Cohesion.Json.Reader
import Cohesion.Json.Writer
import Mathlib.Tactic.NormNum

set_option autoImplicit false

namespace Cohesion.Json

open Text

/-! ### The standard -/

/-- A hexadecimal digit in either case. -/
def IsHexDigit (c : Char) : Prop :=
  ('0' ≤ c ∧ c ≤ '9') ∨ ('a' ≤ c ∧ c ≤ 'f') ∨ ('A' ≤ c ∧ c ≤ 'F')

/-- A character inside a string. -/
inductive IsStringPart : List Char → Prop where
  /-- It stands for itself unless it is a control, the quote or the backslash. -/
  | plain (c : Char) (hcontrol : 0x20 ≤ c.toNat) (hquote : c ≠ '"') (hbackslash : c ≠ '\\') :
    IsStringPart [c]
  /-- A few characters have an escape of one letter. -/
  | letter (c : Char) (hc : c ∈ ['"', '\\', '/', 'b', 'f', 'n', 'r', 't']) : IsStringPart ['\\', c]
  /-- A 16-bit unit has an escape of four digits. -/
  | unit (a b c d : Char) (ha : IsHexDigit a) (hb : IsHexDigit b) (hc : IsHexDigit c)
    (hd : IsHexDigit d) : IsStringPart ['\\', 'u', a, b, c, d]

/-- The characters of a string, one after the other. -/
inductive IsStringBody : List Char → Prop where
  /-- There are none. -/
  | nil : IsStringBody []
  /-- There is one more. -/
  | cons {part rest : List Char} (hpart : IsStringPart part) (hrest : IsStringBody rest) :
    IsStringBody (part ++ rest)

/-- The characters of a string stand between quotes. -/
inductive IsStringText : List Char → Prop where
  /-- There is a quote on either side. -/
  | quoted {body : List Char} (h : IsStringBody body) : IsStringText ('"' :: body ++ ['"'])

/-! ### Hexadecimal digits -/

theorem hexDigits_four (n : Nat) : hexDigits 4 n =
    [Nat.digitChar (n / 4096 % 16), Nat.digitChar (n / 256 % 16), Nat.digitChar (n / 16 % 16),
      Nat.digitChar (n % 16)] := by
  simp [hexDigits, Nat.div_div_eq_div_mul]

theorem hexValue?_digitChar {d : Nat} (hd : d < 16) : hexValue? (Nat.digitChar d) = some d := by
  have hall : ∀ i : Fin 16, hexValue? (Nat.digitChar i) = some i.val := by decide
  exact hall ⟨d, hd⟩

theorem isHexDigit_digitChar {d : Nat} (hd : d < 16) : IsHexDigit (Nat.digitChar d) := by
  have hall : ∀ i : Fin 16, ('0' ≤ Nat.digitChar i ∧ Nat.digitChar i ≤ '9') ∨
      ('a' ≤ Nat.digitChar i ∧ Nat.digitChar i ≤ 'f') ∨
      ('A' ≤ Nat.digitChar i ∧ Nat.digitChar i ≤ 'F') := by decide
  exact hall ⟨d, hd⟩

/-- A unit of 16 bits is read back from its digits. -/
theorem hexNumber?_hexDigits {n : Nat} (hn : n < 0x10000) : hexNumber? (hexDigits 4 n) = some n := by
  have hmod : ∀ k, n / k % 16 < 16 := fun k => Nat.mod_lt _ (by decide)
  rw [hexDigits_four]
  simp only [hexNumber?, List.foldlM_cons, List.foldlM_nil, hexValue?_digitChar (hmod _),
    hexValue?_digitChar (Nat.mod_lt n (by decide : 0 < 16)), Option.map_some, Option.bind_eq_bind,
    Option.bind_some, Option.pure_def, Option.some.injEq]
  omega

theorem isStringPart_unitEscape (n : Nat) : IsStringPart (unitEscape n) := by
  rw [unitEscape, hexDigits_four]
  exact .unit _ _ _ _ (isHexDigit_digitChar (Nat.mod_lt _ (by decide)))
    (isHexDigit_digitChar (Nat.mod_lt _ (by decide)))
    (isHexDigit_digitChar (Nat.mod_lt _ (by decide)))
    (isHexDigit_digitChar (Nat.mod_lt _ (by decide)))

/-! ### Written characters -/

/-- The ways in which a character may be written. -/
inductive CharText (c : Char) : List Char → Prop where
  /-- As it is. -/
  | plain (hcontrol : 0x20 ≤ c.toNat) (hquote : c ≠ '"') (hbackslash : c ≠ '\\') : CharText c [c]
  /-- As an escape of one letter. -/
  | letter (l : Char) (hl : simpleEscape? l = some c) : CharText c ['\\', l]
  /-- As a unit of 16 bits. -/
  | unit (h : c.toNat < 0x10000) : CharText c (unitEscape c.toNat)
  /-- As two units of 16 bits. -/
  | pair (h : 0x10000 ≤ c.toNat) :
    CharText c (unitEscape (0xd800 + (c.toNat - 0x10000) / 0x400) ++
      unitEscape (0xdc00 + (c.toNat - 0x10000) % 0x400))

/-- The writer writes each character in one of these ways. -/
theorem charText_writeChar (c : Char) : CharText c (writeChar c) := by
  unfold writeChar
  split
  · exact .letter '"' (by simp_all [simpleEscape?])
  split
  · exact .letter '\\' (by simp_all [simpleEscape?])
  split
  · exact .letter 'n' (by simp_all [simpleEscape?])
  split
  · exact .letter 'r' (by simp_all [simpleEscape?])
  split
  · exact .letter 't' (by simp_all [simpleEscape?])
  split
  · exact .letter 'f' (by simp_all [simpleEscape?])
  split
  · exact .letter 'b' (by simp_all [simpleEscape?])
  split
  · exact .plain (by simp_all) (by simp_all) (by simp_all)
  split
  · exact .unit ‹_›
  · exact .pair (not_lt.1 ‹_›)

/-- An escape of one letter is one of the standard. -/
theorem mem_letters_of_simpleEscape? {c l : Char} (h : simpleEscape? l = some c) :
    l ∈ ['"', '\\', '/', 'b', 'f', 'n', 'r', 't'] := by
  unfold simpleEscape? at h
  split at h
  case h_9 => cases h
  all_goals decide

theorem CharText.isStringBody {c : Char} {t rest : List Char} (h : CharText c t)
    (hrest : IsStringBody rest) : IsStringBody (t ++ rest) := by
  cases h with
  | plain hcontrol hquote hbackslash => exact .cons (.plain c hcontrol hquote hbackslash) hrest
  | letter l hl => exact .cons (.letter l (mem_letters_of_simpleEscape? hl)) hrest
  | unit h => exact .cons (isStringPart_unitEscape _) hrest
  | pair h =>
      rw [List.append_assoc]
      exact .cons (isStringPart_unitEscape _) (.cons (isStringPart_unitEscape _) hrest)

/-- **A written text is a string of the standard.** -/
theorem isStringText_writeString (s : String) : IsStringText (writeString s) := by
  refine .quoted ?_
  induction s.toList with
  | nil => exact .nil
  | cons c cs ih =>
      rw [List.flatMap_cons]
      exact (charText_writeChar c).isStringBody ih

/-! ### Reading -/

theorem length_hexDigits (width n : Nat) : (hexDigits width n).length = width := by
  induction width generalizing n with
  | zero => rfl
  | succ width ih => rw [hexDigits, List.length_append, ih, List.length_singleton]

/-- An escape that is no half of a surrogate pair is read. -/
theorem readString_unit {n : Nat} (hn : n < 0x10000) (hpair : n < 0xd800 ∨ 0xe000 ≤ n)
    (start fuel : Nat) (done : List Char) {rest : List Char} (hrest : rest ≠ []) (p : Nat) :
    readString start (fuel + 1) done ⟨unitEscape n ++ rest, p⟩ =
      readString start fuel (Char.ofNat n :: done) ⟨rest, p + 6⟩ := by
  have hdrop : (hexDigits 4 n ++ rest).drop 4 = rest := List.drop_left' (length_hexDigits 4 n)
  have htake : (hexDigits 4 n ++ rest).take 4 = hexDigits 4 n :=
    List.take_left' (length_hexDigits 4 n)
  have hhigh : ¬(0xd800 ≤ n ∧ n < 0xdc00) := by omega
  have hlow : ¬(0xdc00 ≤ n ∧ n < 0xe000) := by omega
  rw [unitEscape, List.cons_append, List.cons_append, readString]
  simp only [hdrop, htake, hexNumber?_hexDigits hn]
  simp [hrest, hhigh, hlow]

/-- Two escapes that are the halves of a surrogate pair are read as one character. -/
theorem readString_pair {h l : Nat} (hh : h < 0x400) (hl : l < 0x400) (start fuel : Nat)
    (done : List Char) {rest : List Char} (hrest : rest ≠ []) (p : Nat) :
    readString start (fuel + 1) done
        ⟨unitEscape (0xd800 + h) ++ (unitEscape (0xdc00 + l) ++ rest), p⟩ =
      readString start fuel (Char.ofNat (0x10000 + h * 0x400 + l) :: done) ⟨rest, p + 12⟩ := by
  have hdrop : (hexDigits 4 (0xd800 + h) ++ (unitEscape (0xdc00 + l) ++ rest)).drop 4 =
      unitEscape (0xdc00 + l) ++ rest := List.drop_left' (length_hexDigits 4 _)
  have htake : (hexDigits 4 (0xd800 + h) ++ (unitEscape (0xdc00 + l) ++ rest)).take 4 =
      hexDigits 4 (0xd800 + h) := List.take_left' (length_hexDigits 4 _)
  have hempty : (unitEscape (0xdc00 + l) ++ rest).isEmpty = false := rfl
  have hrest' : (unitEscape (0xdc00 + l) ++ rest).drop 6 = rest :=
    List.drop_left' (congrArg (· + 2) (length_hexDigits 4 _))
  have hsecond : lowSurrogate? (unitEscape (0xdc00 + l) ++ rest) = some (0xdc00 + l) := by
    obtain ⟨c, more, rfl⟩ := List.exists_cons_of_ne_nil hrest
    have hfour := hexNumber?_hexDigits (n := 0xdc00 + l) (by omega)
    have hrange : 0xdc00 ≤ 0xdc00 + l ∧ 0xdc00 + l < 0xe000 := by omega
    rw [hexDigits_four] at hfour
    rw [unitEscape, hexDigits_four]
    simp [lowSurrogate?, hfour, hrange]
  have hhigh : 0xd800 ≤ 0xd800 + h ∧ 0xd800 + h < 0xdc00 := by omega
  have hvalue : 0x10000 + (0xd800 + h - 0xd800) * 0x400 + (0xdc00 + l - 0xdc00) =
      0x10000 + h * 0x400 + l := by omega
  rw [unitEscape, List.cons_append, List.cons_append, readString]
  simp only [hdrop, htake, hexNumber?_hexDigits (n := 0xd800 + h) (by omega), hempty, hsecond,
    hrest', hvalue]
  simp [hhigh]

theorem CharText.length_pos {c : Char} {t : List Char} (h : CharText c t) : 0 < t.length := by
  cases h <;> exact Nat.succ_pos _

/-- A written character is read back, if something follows it. -/
theorem CharText.readString_eq {c : Char} {t : List Char} (h : CharText c t) (start fuel : Nat)
    (done : List Char) {rest : List Char} (hrest : rest ≠ []) (p : Nat) :
    readString start (fuel + 1) done ⟨t ++ rest, p⟩ =
      readString start fuel (c :: done) ⟨rest, p + t.length⟩ := by
  cases h with
  | plain hcontrol hquote hbackslash =>
      rw [List.singleton_append, readString, if_neg (not_lt.2 hcontrol)]
      · rfl
      · exact hquote
      · exact fun _ h => absurd h hbackslash
      · exact fun _ _ h => absurd h hbackslash
      · exact fun h => absurd h hbackslash
  | letter l hl =>
      have hu : l ≠ 'u' := by
        rintro rfl
        cases hl
      rw [List.cons_append, List.singleton_append, readString]
      · rw [hl]
        rfl
      · exact hu
  | unit h =>
      have hvalid := c.valid
      rw [readString_unit h ?_ start fuel done hrest p, Char.ofNat_toNat]
      · rfl
      · rcases hvalid with hvalid | hvalid
        · exact Or.inl hvalid
        · exact Or.inr (Nat.succ_le_of_lt hvalid.1)
  | pair h =>
      have hlt : c.toNat < 0x110000 := by
        rcases c.valid with hvalid | hvalid
        · exact lt_trans hvalid (by decide)
        · exact hvalid.2
      have hchar : 0x10000 + (c.toNat - 0x10000) / 0x400 * 0x400 + (c.toNat - 0x10000) % 0x400 =
          c.toNat := by omega
      rw [List.append_assoc, readString_pair (by omega) (by omega) start fuel done hrest p, hchar,
        Char.ofNat_toNat]
      rfl

/-- **A written text is read back.** -/
theorem readString_flatMap (start : Nat) (cs done rest : List Char) (p : Nat) {fuel : Nat}
    (hfuel : (cs.flatMap writeChar).length < fuel) :
    readString start fuel done ⟨cs.flatMap writeChar ++ '"' :: rest, p⟩ =
      .ok (String.ofList (done.reverse ++ cs),
        ⟨rest, p + ((cs.flatMap writeChar).length + 1)⟩) := by
  induction cs generalizing fuel done p with
  | nil =>
      obtain ⟨more, rfl⟩ := Nat.exists_eq_add_one_of_ne_zero (Nat.ne_of_gt hfuel)
      rw [List.append_nil]
      rfl
  | cons c cs ih =>
      obtain ⟨more, rfl⟩ := Nat.exists_eq_add_one_of_ne_zero (Nat.ne_zero_of_lt hfuel)
      have hpos := (charText_writeChar c).length_pos
      rw [List.flatMap_cons, List.length_append] at hfuel ⊢
      rw [List.append_assoc, (charText_writeChar c).readString_eq start more done (by simp) p,
        ih (c :: done) (p + (writeChar c).length) (by omega), List.reverse_cons,
        List.append_assoc, List.singleton_append]
      congr 3
      omega

end Cohesion.Json
