/-
The parts of a number in a text.

A number in a text has a whole part, which does not start with a zero unless that is all of it, and
perhaps a point with decimals and an exponent.  The digits of a natural number are such a whole
part, and a text made of such parts is read as the number that the parts say.

Main definitions:
* `AreDigits` — characters are digits;
* `IsWholePart`, `IsDecimalPart`, `IsExponentPart` — the parts;
* `exponentValue` — the power of ten that an exponent says.

Main results:
* `isWholePart_toDigits` — the digits of a natural number;
* `readDigits_append` — a run of digits is read;
* `unsignedReal?_parts` — **what a text of such parts is read as**.
-/
import Cohesion.Number.Reading
import Mathlib.Algebra.Group.Nat.Defs

set_option autoImplicit false

namespace Cohesion

/-- All characters are digits. -/
def AreDigits (cs : List Char) : Prop := ∀ c ∈ cs, c.isDigit = true

theorem areDigits_append {cs ds : List Char} (hcs : AreDigits cs) (hds : AreDigits ds) :
    AreDigits (cs ++ ds) := fun c hc => (List.mem_append.1 hc).elim (hcs c) (hds c)

theorem areDigits_replicate (n : Nat) : AreDigits (List.replicate n '0') := by
  intro c hc
  rw [List.eq_of_mem_replicate hc]
  rfl

theorem areDigits_toDigits (n : Nat) : AreDigits (Nat.toDigits 10 n) :=
  fun _ hc => Nat.isDigit_of_mem_toDigits (by decide) (by decide) hc

/-! ### Values of digits -/

theorem digitsValue_append (cs ds : List Char) :
    digitsValue (cs ++ ds) = digitsValue cs * 10 ^ ds.length + digitsValue ds := by
  change Nat.ofDigitChars 10 (cs ++ ds) 0 = _
  rw [Nat.ofDigitChars_append, Nat.ofDigitChars_eq_ofDigitChars_zero, Nat.mul_comm]
  rfl

theorem digitsValue_replicate (n : Nat) : digitsValue (List.replicate n '0') = 0 :=
  Nat.ofDigitChars_replicate_zero

theorem digitsValue_toDigits (n : Nat) : digitsValue (Nat.toDigits 10 n) = n :=
  Nat.ofDigitChars_ten_toDigits

/-- A run of digits is read, if no other digit follows. -/
theorem readDigits_append {ds rest : List Char} (hds : AreDigits ds)
    (hrest : ∀ c ∈ rest.head?, c.isDigit = false) : readDigits (ds ++ rest) = (ds, rest) := by
  induction ds with
  | nil =>
      cases rest with
      | nil => rfl
      | cons c rest => simp [readDigits, hrest c rfl]
  | cons d ds ih =>
      have hd := hds d List.mem_cons_self
      have ih := ih fun c hc => hds c (List.mem_cons_of_mem d hc)
      rw [readDigits, Prod.mk.injEq] at ih
      rw [readDigits, List.cons_append, List.takeWhile_cons_of_pos hd,
        List.dropWhile_cons_of_pos hd, ih.1, ih.2]

theorem readDigits_eq {ds : List Char} (hds : AreDigits ds) : readDigits ds = (ds, []) := by
  have hread : readDigits (ds ++ []) = (ds, []) := readDigits_append hds nofun
  rwa [List.append_nil] at hread

/-! ### Parts -/

/-- A whole part: a single zero, or digits of which the first is no zero. -/
inductive IsWholePart : List Char → Prop where
  /-- It is zero. -/
  | zero : IsWholePart ['0']
  /-- It does not start with a zero. -/
  | digits (d : Char) (ds : List Char) (hd : d.isDigit = true) (hzero : d ≠ '0')
    (hds : AreDigits ds) : IsWholePart (d :: ds)

/-- Decimals: none, or a point and digits. -/
inductive IsDecimalPart : List Char → Prop where
  /-- There are none. -/
  | none : IsDecimalPart []
  /-- There are some. -/
  | digits (ds : List Char) (hne : ds ≠ []) (hds : AreDigits ds) : IsDecimalPart ('.' :: ds)

/-- An exponent: none, or a mark, perhaps a sign, and digits. -/
inductive IsExponentPart : List Char → Prop where
  /-- There is none. -/
  | none : IsExponentPart []
  /-- There is one. -/
  | digits (mark : Char) (sign ds : List Char) (hmark : mark = 'e' ∨ mark = 'E')
    (hsign : sign = [] ∨ sign = ['+'] ∨ sign = ['-']) (hne : ds ≠ []) (hds : AreDigits ds) :
    IsExponentPart (mark :: sign ++ ds)

theorem IsWholePart.areDigits {cs : List Char} (h : IsWholePart cs) : AreDigits cs := by
  cases h with
  | zero => exact areDigits_replicate 1
  | digits d ds hd hzero hds =>
      intro c hc
      rcases List.mem_cons.1 hc with rfl | hc
      · exact hd
      · exact hds c hc

theorem IsWholePart.ne_nil {cs : List Char} (h : IsWholePart cs) : cs ≠ [] := by
  cases h <;> exact List.cons_ne_nil _ _

/-- More digits behind a whole part other than zero. -/
theorem IsWholePart.append {cs ds : List Char} (h : IsWholePart cs) (hzero : cs ≠ ['0'])
    (hds : AreDigits ds) : IsWholePart (cs ++ ds) := by
  cases h with
  | zero => exact absurd rfl hzero
  | digits d more hd hzero' hmore => exact .digits d _ hd hzero' (areDigits_append hmore hds)

theorem toDigits_ne_zero {n : Nat} (hn : n ≠ 0) : Nat.toDigits 10 n ≠ ['0'] := by
  intro h
  have hvalue := digitsValue_toDigits n
  rw [h] at hvalue
  exact hn hvalue.symm

/-- The digits of a natural number are a whole part. -/
theorem isWholePart_toDigits (n : Nat) : IsWholePart (Nat.toDigits 10 n) := by
  induction n using Nat.strongRecOn with
  | ind n ih =>
      by_cases hlt : n < 10
      · rw [Nat.toDigits_of_lt_base hlt]
        by_cases hn : n = 0
        · subst hn
          exact .zero
        · exact .digits _ [] (by rw [Nat.isDigit_digitChar]; exact decide_eq_true hlt)
            (by rwa [ne_eq, Nat.digitChar_eq_zero]) nofun
      · rw [Nat.toDigits_of_base_le (by decide) (by omega)]
        refine (ih (n / 10) (by omega)).append (toDigits_ne_zero (by omega)) ?_
        rw [← Nat.toDigits_of_lt_base (Nat.mod_lt n (by decide : 0 < 10))]
        exact areDigits_toDigits _

/-! ### Reading -/

/-- The power of ten that an exponent says. -/
def exponentValue (cs : List Char) : Int := (readExponent? cs.tail).getD 0

theorem mem_digits_of_isDigit {c : Char} (h : c.isDigit = true) :
    c ∈ ['0', '1', '2', '3', '4', '5', '6', '7', '8', '9'] := by
  have hrange : 48 ≤ c.toNat ∧ c.toNat ≤ 57 := Char.isDigit_iff_toNat.1 h
  obtain ⟨n, hn⟩ : ∃ n, c.toNat = n := ⟨_, rfl⟩
  rw [← Char.ofNat_toNat c, hn]
  rw [hn] at hrange
  have hcases : n = 48 ∨ n = 49 ∨ n = 50 ∨ n = 51 ∨ n = 52 ∨ n = 53 ∨ n = 54 ∨ n = 55 ∨ n = 56 ∨
      n = 57 := by omega
  rcases hcases with rfl | rfl | rfl | rfl | rfl | rfl | rfl | rfl | rfl | rfl <;> decide

/-- A text that starts with a digit is no name of a number. -/
theorem isName_eq_false {c : Char} (hc : c.isDigit = true) (cs : List Char) :
    ((c :: cs).map Char.toLower == "nan".toList) = false ∧
      ((c :: cs).map Char.toLower == "inf".toList ||
        (c :: cs).map Char.toLower == "infinity".toList) = false := by
  have hlower : c.toLower ≠ 'n' ∧ c.toLower ≠ 'i' := by
    have hall : ∀ d ∈ ['0', '1', '2', '3', '4', '5', '6', '7', '8', '9'],
        Char.toLower d ≠ 'n' ∧ Char.toLower d ≠ 'i' := by simp
    exact hall c (mem_digits_of_isDigit hc)
  have hnames : "nan".toList = ['n', 'a', 'n'] ∧ "inf".toList = ['i', 'n', 'f'] ∧
      "infinity".toList = ['i', 'n', 'f', 'i', 'n', 'i', 't', 'y'] := by decide
  rw [hnames.1, hnames.2.1, hnames.2.2]
  simp [hlower.1, hlower.2]

/-- What follows a run of digits inside a number is no digit. -/
theorem IsExponentPart.head_not_digit {cs : List Char} (h : IsExponentPart cs) :
    ∀ c ∈ cs.head?, c.isDigit = false ∧ c ≠ '.' := by
  cases h with
  | none => nofun
  | digits mark sign ds hmark hsign hne hds =>
      intro c hc
      cases hc
      rcases hmark with rfl | rfl <;> decide

theorem readMantissa?_parts {whole decimals exponent : List Char} (hwhole : IsWholePart whole)
    (hdecimals : IsDecimalPart decimals) (hexponent : IsExponentPart exponent) :
    readMantissa? (whole ++ decimals ++ exponent) = some (whole, decimals.tail, exponent) := by
  have hend : ∀ c ∈ exponent.head?, c.isDigit = false := fun c hc =>
    (hexponent.head_not_digit c hc).1
  have hempty : whole.isEmpty = false := by simpa using hwhole.ne_nil
  cases hdecimals with
  | none =>
      rw [List.append_nil, readMantissa?, readDigits_append hwhole.areDigits hend]
      cases exponent with
      | nil => simp [hempty]
      | cons c rest =>
          have hpoint : c ≠ '.' := (hexponent.head_not_digit c rfl).2
          simp [hempty, hpoint]
  | digits ds hne hds =>
      have hpoint : ∀ c ∈ (('.' :: ds) ++ exponent).head?, c.isDigit = false := by
        rintro c ⟨⟩
        rfl
      rw [List.append_assoc, readMantissa?, readDigits_append hwhole.areDigits hpoint]
      simp [readDigits_append hds hend, hempty]

/-- The digits of an exponent are read, with any sign. -/
theorem readExponent?_digits {sign ds : List Char}
    (hsign : sign = [] ∨ sign = ['+'] ∨ sign = ['-']) (hne : ds ≠ []) (hds : AreDigits ds) :
    readExponent? (sign ++ ds) =
      some (if sign = ['-'] then -(digitsValue ds : Int) else digitsValue ds) := by
  obtain ⟨d, more, rfl⟩ := List.exists_cons_of_ne_nil hne
  have hread := readDigits_eq hds
  rcases hsign with rfl | rfl | rfl
  · have hd : d.isDigit = true := hds d List.mem_cons_self
    have hminus : d ≠ '-' := by
      rintro rfl
      cases hd
    have hplus : d ≠ '+' := by
      rintro rfl
      cases hd
    simp [readExponent?, hread, hminus, hplus]
  · simp [readExponent?, hread]
  · simp [readExponent?, hread]

/-- **What a text of such parts is read as.** -/
theorem unsignedReal?_parts {whole decimals exponent : List Char} (hwhole : IsWholePart whole)
    (hdecimals : IsDecimalPart decimals) (hexponent : IsExponentPart exponent) (s : Bool) :
    unsignedReal? s (whole ++ decimals ++ exponent) =
      some (decimalReal s (digitsValue (whole ++ decimals.tail))
        (exponentValue exponent - decimals.tail.length)) := by
  obtain ⟨d, more, hcons⟩ := List.exists_cons_of_ne_nil hwhole.ne_nil
  have hdigit : d.isDigit = true := hwhole.areDigits d (hcons ▸ List.mem_cons_self)
  have hmantissa := readMantissa?_parts hwhole hdecimals hexponent
  rw [hcons, List.cons_append, List.cons_append] at hmantissa ⊢
  obtain ⟨hnan, hinf⟩ := isName_eq_false hdigit (more ++ decimals ++ exponent)
  simp only [unsignedReal?, hnan, hinf, hmantissa, Bool.false_eq_true, if_false, Option.bind_eq_bind,
    Option.bind_some]
  cases hexponent with
  | none => rfl
  | digits mark sign ds hmark hsign hne hds =>
      have hread := readExponent?_digits hsign hne hds
      rcases hmark with rfl | rfl <;> simp [exponentValue, hread]

end Cohesion
