/-
Numbers of JSON documents.

By the standard a number is an optional minus sign, a whole part, and perhaps decimals and an
exponent.  Integers and finite floating-point numbers are written so, and the reader gets them back
where the text goes on with something that no number has.

Main definitions:
* `Json.IsNumberText` — a number as the standard has it;
* `Json.Stops` — a text does not go on with a number.

Main results:
* `Json.readNumber?_parts` — the parts of a number are read;
* `Json.isNumberText_int`, `Json.isNumberText_real` — **written numbers are numbers of the
  standard**;
* `Json.readNumber?_int`, `Json.readNumber?_real` — **written numbers are read back**.
-/
import Cohesion.Json.Reader
import Cohesion.Proofs.Number.Notation

set_option autoImplicit false

namespace Cohesion.Json

open NumberNotation

/-! ### The standard -/

/-- A number is a whole part with an optional minus sign, and perhaps decimals and an exponent. -/
inductive IsNumberText : List Char → Prop where
  /-- The parts stand one after the other. -/
  | parts (negative : Bool) {whole decimals exponent : List Char} (hwhole : IsWholePart whole)
    (hdecimals : IsDecimalPart decimals) (hexponent : IsExponentPart exponent) :
    IsNumberText (sign negative ++ (whole ++ decimals ++ exponent))

/-- A text does not go on with a number. -/
def Stops (rest : List Char) : Prop :=
  ∀ c ∈ rest.head?, c.isDigit = false ∧ c ≠ '.' ∧ c ≠ 'e' ∧ c ≠ 'E'

theorem stops_nil : Stops [] := nofun

theorem stops_cons {c : Char} (hc : c ∈ [',', '\n', ' ', ']', '\x7d']) (rest : List Char) :
    Stops (c :: rest) := by
  rintro d ⟨⟩
  have hall : ∀ c ∈ [',', '\n', ' ', ']', '\x7d'],
      c.isDigit = false ∧ c ≠ '.' ∧ c ≠ 'e' ∧ c ≠ 'E' := by simp
  exact hall c hc

/-! ### Reading the parts -/

theorem integerDigits_append {whole rest : List Char} (hwhole : IsWholePart whole)
    (hrest : ∀ c ∈ rest.head?, c.isDigit = false) : integerDigits (whole ++ rest) = whole := by
  cases hwhole with
  | zero => rfl
  | digits d ds hd hzero hds =>
      have hdigits := IsWholePart.areDigits (.digits d ds hd hzero hds)
      rw [List.cons_append, integerDigits]
      · rw [← List.cons_append, readDigits_append hdigits hrest]
      · exact fun _ h => hzero (List.cons.inj h).1

theorem decimalPart_append {decimals rest : List Char} (hdecimals : IsDecimalPart decimals)
    (hrest : ∀ c ∈ rest.head?, c.isDigit = false ∧ c ≠ '.') :
    decimalPart (decimals ++ rest) = decimals := by
  cases hdecimals with
  | none =>
      cases rest with
      | nil => rfl
      | cons c rest =>
          have hpoint := (hrest c rfl).2
          rw [List.nil_append, decimalPart]
          exact fun _ h => hpoint (List.cons.inj h).1
  | digits ds hne hds =>
      have hempty : ds.isEmpty = false := by simpa using hne
      rw [List.cons_append, decimalPart, readDigits_append hds fun c hc => (hrest c hc).1]
      simp [hempty]

theorem exponentPart_append {exponent rest : List Char} (hexponent : IsExponentPart exponent)
    (hrest : Stops rest) : exponentPart (exponent ++ rest) = exponent := by
  cases hexponent with
  | none =>
      cases rest with
      | nil => rfl
      | cons c rest =>
          obtain ⟨-, -, he, hE⟩ := hrest c rfl
          simp [exponentPart, he, hE]
  | digits mark sign ds hmark hsign hne hds =>
      have hmark' : (mark == 'e' || mark == 'E') = true := by
        rcases hmark with rfl | rfl <;> rfl
      have hempty : ds.isEmpty = false := by simpa using hne
      have hread := readDigits_append hds fun c hc => (hrest c hc).1
      obtain ⟨d, more, hcons⟩ := List.exists_cons_of_ne_nil hne
      have hd : d.isDigit = true := hds d (hcons ▸ List.mem_cons_self)
      have hsigns : d ≠ '+' ∧ d ≠ '-' := by
        constructor <;> rintro rfl <;> cases hd
      rcases hsign with rfl | rfl | rfl
      · subst hcons
        simp only [List.cons_append] at hread
        simp [exponentPart, hmark', hread, hsigns.1, hsigns.2]
      · simp [exponentPart, hmark', hread, hempty]
      · simp [exponentPart, hmark', hread, hempty]

/-- What a number of these parts is read as. -/
def partsValue (negative : Bool) (whole decimals exponent : List Char) : Except ReadError Json :=
  if decimals.isEmpty && exponent.isEmpty then
    if digitLimit < whole.length then .error (.hugeInteger whole.length)
    else .ok (.int (if negative then -(digitsValue whole : Int) else digitsValue whole))
  else .ok (.real ((unsignedReal? negative (whole ++ decimals ++ exponent)).getD .nan))

/-- What is read at the front of a text after a sign. -/
def readAfter (sign cs : List Char) : Option (Except ReadError Json × Nat) :=
  let whole := integerDigits cs
  if whole.isEmpty then none
  else
    let decimals := decimalPart (cs.drop whole.length)
    let exponent := exponentPart (cs.drop (whole.length + decimals.length))
    let length := sign.length + whole.length + decimals.length + exponent.length
    some (partsValue (!sign.isEmpty) whole decimals exponent, length)

theorem readNumber?_eq_readAfter {c : Char} (hc : c ≠ '-') (cs : List Char) :
    readNumber? (c :: cs) = readAfter [] (c :: cs) := by
  unfold readNumber?
  split
  rename_i heq
  split at heq
  · rename_i hcons
    exact absurd (List.cons.inj hcons).1 hc
  · cases heq
    rfl

/-- The parts of a number are read after a sign, where the text does not go on with a number. -/
theorem readAfter_parts {whole decimals exponent rest : List Char} (sign : List Char)
    (hwhole : IsWholePart whole) (hdecimals : IsDecimalPart decimals)
    (hexponent : IsExponentPart exponent) (hrest : Stops rest) :
    readAfter sign (whole ++ (decimals ++ (exponent ++ rest))) =
      some (partsValue (!sign.isEmpty) whole decimals exponent,
        (sign ++ (whole ++ decimals ++ exponent)).length) := by
  have hend : ∀ c ∈ (exponent ++ rest).head?, c.isDigit = false ∧ c ≠ '.' := by
    cases exponent with
    | nil => exact fun c hc => ⟨(hrest c hc).1, (hrest c hc).2.1⟩
    | cons d more => exact fun c hc => hexponent.head_not_digit c hc
  have hpoint : ∀ c ∈ (decimals ++ (exponent ++ rest)).head?, c.isDigit = false := by
    cases hdecimals with
    | none => exact fun c hc => (hend c hc).1
    | digits ds => rintro c ⟨⟩; rfl
  have hempty : whole.isEmpty = false := by simpa using hwhole.ne_nil
  have hinteger := integerDigits_append hwhole hpoint
  have hdecimal := decimalPart_append hdecimals hend
  have hexp := exponentPart_append hexponent hrest
  have hdrop : (whole ++ (decimals ++ (exponent ++ rest))).drop whole.length =
      decimals ++ (exponent ++ rest) := List.drop_left
  have hdrop' : (whole ++ (decimals ++ (exponent ++ rest))).drop
      (whole.length + decimals.length) = exponent ++ rest := by
    rw [← List.append_assoc, ← List.length_append, List.drop_left]
  simp only [readAfter, hinteger, hempty, hdrop, hdecimal, hdrop', hexp, Bool.false_eq_true,
    if_false, List.length_append, Nat.add_assoc]

/-- The parts of a number are read, where the text does not go on with a number. -/
theorem readNumber?_parts {whole decimals exponent rest : List Char} (negative : Bool)
    (hwhole : IsWholePart whole) (hdecimals : IsDecimalPart decimals)
    (hexponent : IsExponentPart exponent) (hrest : Stops rest) :
    readNumber? (sign negative ++ (whole ++ decimals ++ exponent) ++ rest) =
      some (partsValue negative whole decimals exponent,
        (sign negative ++ (whole ++ decimals ++ exponent)).length) := by
  have hafter := fun sign => readAfter_parts sign hwhole hdecimals hexponent hrest
  have hbody : whole ++ decimals ++ exponent ++ rest =
      whole ++ (decimals ++ (exponent ++ rest)) := by simp only [List.append_assoc]
  rw [List.append_assoc, hbody]
  cases negative with
  | true => exact hafter ['-']
  | false =>
      obtain ⟨d, more, hcons⟩ := List.exists_cons_of_ne_nil hwhole.ne_nil
      have hd : d.isDigit = true := hwhole.areDigits d (hcons ▸ List.mem_cons_self)
      have hminus : d ≠ '-' := by
        rintro rfl
        cases hd
      have hread := readNumber?_eq_readAfter hminus (more ++ (decimals ++ (exponent ++ rest)))
      rw [← List.cons_append, ← hcons] at hread
      exact hread.trans (hafter [])

/-! ### Integers -/

theorem toList_toString_int (n : Int) :
    (toString n).toList = sign (decide (n < 0)) ++ Nat.toDigits 10 n.natAbs := by
  cases n with
  | ofNat n =>
      have hsign : decide (Int.ofNat n < 0) = false := by simp
      rw [hsign]
      exact toList_toString n
  | negSucc n =>
      have hsign : decide (Int.negSucc n < 0) = true := by simp [Int.negSucc_lt_zero]
      have htext : toString (Int.negSucc n) = "-" ++ toString (n + 1) := rfl
      rw [hsign, htext, String.toList_append, toList_toString]
      rfl

theorem int_parts (n : Int) : (toString n).toList =
    sign (decide (n < 0)) ++ (Nat.toDigits 10 n.natAbs ++ [] ++ []) := by
  rw [List.append_nil, List.append_nil, toList_toString_int]

theorem isNumberText_int (n : Int) : IsNumberText (toString n).toList := by
  rw [int_parts]
  exact .parts _ (isWholePart_toDigits _) .none .none

/-- **A written integer is read back.** -/
theorem readNumber?_int {n : Int} (hn : isWritable n = true) {rest : List Char}
    (hrest : Stops rest) : readNumber? ((toString n).toList ++ rest) =
      some (.ok (.int n), (toString n).toList.length) := by
  have hlength : ¬digitLimit < (Nat.toDigits 10 n.natAbs).length := by
    have hlimit : writtenDigitLimit = digitLimit := rfl
    rw [isWritable, decide_eq_true_eq, Nat.pow_eq, hlimit] at hn
    have hpos : 0 < digitLimit := by decide
    generalize digitLimit = limit at *
    exact not_lt.2 ((Nat.length_toDigits_le_iff (by decide) hpos).2 hn)
  rw [int_parts, readNumber?_parts _ (isWholePart_toDigits _) .none .none hrest]
  simp only [partsValue, List.isEmpty_nil, Bool.and_self, if_true, if_neg hlength,
    digitsValue_toDigits, decide_eq_true_eq, Option.some.injEq, Prod.mk.injEq, and_true,
    Except.ok.injEq, Json.int.injEq]
  split <;> omega

/-! ### Floating-point numbers -/

variable {k : Nat} {e : Int}

theorem isNumberText_real (s : Bool) (hk : Binary64.CanonicalParts k e) :
    IsNumberText (json.write (.finite s k e)).toList := by
  obtain ⟨whole, decimals, exponent, hwrite, hwhole, hdecimals, hexponent, -⟩ :=
    json.exists_parts_write s hk
  rw [hwrite]
  exact .parts s hwhole hdecimals hexponent

/-- **A written floating-point number is read back.** -/
theorem readNumber?_real (s : Bool) (hk : Binary64.CanonicalParts k e) {rest : List Char}
    (hrest : Stops rest) : readNumber? ((json.write (.finite s k e)).toList ++ rest) =
      some (.ok (.real (.finite s k e)), (json.write (.finite s k e)).toList.length) := by
  obtain ⟨whole, decimals, exponent, hwrite, hwhole, hdecimals, hexponent, hreal, hread⟩ :=
    json.exists_parts_write s hk
  have hparts : (decimals.isEmpty && exponent.isEmpty) = false := by
    rw [Bool.and_eq_false_iff]
    simpa using hreal
  rw [hwrite, readNumber?_parts s hwhole hdecimals hexponent hrest, partsValue, hparts, hread]
  rfl

end Cohesion.Json
