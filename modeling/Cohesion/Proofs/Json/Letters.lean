/-
Letters outside of strings.

The names of the numbers that are not finite start with one of two capital letters, if one looks
behind the sign.  Outside of its strings a document of the standard has none of the two, since its
numbers and names are written without them.  So a written document belongs to the standard exactly
if all its numbers are finite.

Main definitions:
* `Json.hasCapital` — a text has one of the two letters outside of strings.

Main results:
* `Json.Derives.hasCapital_append` — a document of the standard has none of them;
* `Json.hasCapital_writeAt` — which values are written with one of them;
* `Json.isDocument_write_iff` — **which written documents are documents of the standard**.
-/
import Cohesion.Proofs.Json.Grammar

set_option autoImplicit false

namespace Cohesion.Json

/-- One of the letters with which the names of numbers start stands outside of strings, where the
truth value tells whether the text starts inside of one. -/
def hasCapital : Bool → List Char → Bool
  | _, [] => false
  | false, c :: cs => c == 'N' || c == 'I' || hasCapital (c == '"') cs
  | true, '\\' :: _ :: cs => hasCapital true cs
  | true, c :: cs => hasCapital (c != '"') cs

/-! ### Texts without such a letter -/

/-- No character is a quote or one of the letters. -/
def IsBare (cs : List Char) : Prop := ∀ c ∈ cs, c ≠ '"' ∧ c ≠ 'N' ∧ c ≠ 'I'

instance : DecidablePred IsBare := fun cs =>
  List.decidableBAll _ cs

theorem hasCapital_append {cs : List Char} (h : IsBare cs) (rest : List Char) :
    hasCapital false (cs ++ rest) = hasCapital false rest := by
  induction cs with
  | nil => rfl
  | cons c cs ih =>
      obtain ⟨hquote, hN, hI⟩ := h c List.mem_cons_self
      have hquote' : (c == '"') = false := by simpa using hquote
      rw [List.cons_append, hasCapital, hquote', ih fun d hd => h d (List.mem_cons_of_mem c hd)]
      simp [hN, hI]

theorem isBare_append {cs ds : List Char} (hcs : IsBare cs) (hds : IsBare ds) :
    IsBare (cs ++ ds) := fun c hc => (List.mem_append.1 hc).elim (hcs c) (hds c)

theorem isBare_of_isWhite {cs : List Char} (h : IsWhite cs) : IsBare cs := by
  intro c hc
  rcases h c hc with rfl | rfl | rfl | rfl <;> decide

theorem isBare_of_areDigits {cs : List Char} (h : AreDigits cs) : IsBare cs := by
  intro c hc
  have hall : ∀ d ∈ ['0', '1', '2', '3', '4', '5', '6', '7', '8', '9'],
      d ≠ '"' ∧ d ≠ 'N' ∧ d ≠ 'I' := by simp
  exact hall c (mem_digits_of_isDigit (h c hc))

theorem IsNumberText.isBare {cs : List Char} (h : IsNumberText cs) : IsBare cs := by
  cases h with
  | parts negative hwhole hdecimals hexponent =>
      have hsign : IsBare (NumberNotation.sign negative) := by cases negative <;> decide
      refine isBare_append hsign (isBare_append (isBare_append ?_ ?_) ?_)
      · exact isBare_of_areDigits hwhole.areDigits
      · cases hdecimals with
        | none => decide
        | digits ds _ hds =>
            have hpoint : IsBare ['.'] := by decide
            exact isBare_append hpoint (isBare_of_areDigits hds)
      · cases hexponent with
        | none => decide
        | digits mark sign ds hmark hsign _ hds =>
            have hmark' : IsBare [mark] := by rcases hmark with rfl | rfl <;> decide
            have hsign' : IsBare sign := by rcases hsign with rfl | rfl | rfl <;> decide
            exact isBare_append (isBare_append hmark' hsign') (isBare_of_areDigits hds)

theorem hasCapital_plain {c : Char} (hquote : c ≠ '"') (hbackslash : c ≠ '\\')
    (rest : List Char) : hasCapital true (c :: rest) = hasCapital true rest := by
  have hquote' : (c != '"') = true := by simpa using hquote
  rw [hasCapital, hquote']
  exact fun _ _ h => absurd h hbackslash

theorem IsHexDigit.ne {c : Char} (h : IsHexDigit c) : c ≠ '"' ∧ c ≠ '\\' := by
  constructor
  · rintro rfl
    exact absurd h (by unfold IsHexDigit; decide)
  · rintro rfl
    exact absurd h (by unfold IsHexDigit; decide)

/-- The characters of a string do not matter. -/
theorem IsStringPart.hasCapital_append {p : List Char} (h : IsStringPart p) (rest : List Char) :
    hasCapital true (p ++ rest) = hasCapital true rest := by
  cases h with
  | plain c _ hquote hbackslash => exact hasCapital_plain hquote hbackslash rest
  | letter c hc => rfl
  | unit a b c d ha hb hc hd =>
      calc hasCapital true (['\\', 'u', a, b, c, d] ++ rest)
          = hasCapital true (a :: b :: c :: d :: rest) := rfl
        _ = hasCapital true rest := by
          rw [hasCapital_plain ha.ne.1 ha.ne.2, hasCapital_plain hb.ne.1 hb.ne.2,
            hasCapital_plain hc.ne.1 hc.ne.2, hasCapital_plain hd.ne.1 hd.ne.2]

/-- Strings do not matter. -/
theorem IsStringText.hasCapital_append {cs : List Char} (h : IsStringText cs) (rest : List Char) :
    hasCapital false (cs ++ rest) = hasCapital false rest := by
  obtain ⟨hbody⟩ := h
  have hinside : ∀ {body : List Char}, IsStringBody body →
      hasCapital true (body ++ '"' :: rest) = hasCapital false rest := by
    intro body hbody
    induction hbody with
    | nil => rfl
    | cons hpart _ ih => rw [List.append_assoc, hpart.hasCapital_append, ih]
  rw [List.append_assoc, List.cons_append]
  exact hinside hbody

/-- A mark between the parts of a document does not matter. -/
theorem hasCapital_mark {c : Char} (hc : c ∈ [',', ':', '[', ']', '\x7b', '\x7d'])
    (rest : List Char) : hasCapital false (c :: rest) = hasCapital false rest := by
  have hbare : ∀ c ∈ [',', ':', '[', ']', '\x7b', '\x7d'], IsBare [c] := by simp [IsBare]
  exact hasCapital_append (hbare c hc) rest

/-- White space does not matter. -/
theorem IsWhite.hasCapital_append {cs : List Char} (h : IsWhite cs) (rest : List Char) :
    hasCapital false (cs ++ rest) = hasCapital false rest :=
  Json.hasCapital_append (isBare_of_isWhite h) rest

theorem hasCapital_space (rest : List Char) :
    hasCapital false (' ' :: rest) = hasCapital false rest :=
  IsWhite.hasCapital_append isWhite_space rest

/-- No part of a document of the standard has such a letter. -/
theorem Derives.hasCapital_append {part : Part} {cs : List Char} (h : Derives part cs)
    (rest : List Char) : hasCapital false (cs ++ rest) = hasCapital false rest := by
  have hmark : ∀ {c : Char}, c ∈ [',', ':', '[', ']', '\x7b', '\x7d'] → ∀ ds,
      hasCapital false (c :: ds) = hasCapital false ds := hasCapital_mark
  induction h generalizing rest with
  | name h =>
      have hnames : ∀ cs ∈ ["null".toList, "true".toList, "false".toList], IsBare cs := by
        simp [IsBare]
      exact Json.hasCapital_append (hnames _ h) rest
  | number h => exact Json.hasCapital_append h.isBare rest
  | string h => exact h.hasCapital_append rest
  | emptyArray h =>
      simp only [List.append_assoc, List.cons_append, List.nil_append, hmark (c := '[') (by decide),
        hmark (c := ']') (by decide), IsWhite.hasCapital_append h]
  | array h ih =>
      simp only [List.append_assoc, List.cons_append, List.nil_append, hmark (c := '[') (by decide),
        hmark (c := ']') (by decide), ih]
  | emptyObject h =>
      simp only [List.append_assoc, List.cons_append, List.nil_append,
        hmark (c := '\x7b') (by decide), hmark (c := '\x7d') (by decide),
        IsWhite.hasCapital_append h]
  | object h ih =>
      simp only [List.append_assoc, List.cons_append, List.nil_append,
        hmark (c := '\x7b') (by decide), hmark (c := '\x7d') (by decide), ih]
  | item hbefore h hafter ih =>
      simp only [List.append_assoc, IsWhite.hasCapital_append hbefore, ih,
        IsWhite.hasCapital_append hafter]
  | items hbefore h hafter hrest ih ihrest =>
      simp only [List.append_assoc, List.cons_append, IsWhite.hasCapital_append hbefore, ih,
        IsWhite.hasCapital_append hafter, hmark (c := ',') (by decide), ihrest]
  | member hbefore hname hmiddle hbefore' h hafter ih =>
      simp only [List.append_assoc, List.cons_append, IsWhite.hasCapital_append hbefore,
        hname.hasCapital_append, IsWhite.hasCapital_append hmiddle, hmark (c := ':') (by decide),
        IsWhite.hasCapital_append hbefore', ih, IsWhite.hasCapital_append hafter]
  | members hbefore hname hmiddle hbefore' h hafter hrest ih ihrest =>
      simp only [List.append_assoc, List.cons_append, IsWhite.hasCapital_append hbefore,
        hname.hasCapital_append, IsWhite.hasCapital_append hmiddle, hmark (c := ':') (by decide),
        IsWhite.hasCapital_append hbefore', ih, IsWhite.hasCapital_append hafter,
        hmark (c := ',') (by decide), ihrest]

/-- No document of the standard has such a letter. -/
theorem IsDocument.hasCapital_eq {cs : List Char} (h : IsDocument cs) :
    hasCapital false cs = false := by
  obtain ⟨hbefore, hvalue, hafter⟩ := h
  have hend := IsWhite.hasCapital_append hafter []
  rw [List.append_nil] at hend
  rw [List.append_assoc, IsWhite.hasCapital_append hbefore, hvalue.hasCapital_append, hend]
  rfl

/-! ### Written values -/

mutual

/-- A value is written with such a letter exactly if one of its numbers is not finite. -/
theorem hasCapital_writeAt (layout : Layout) (depth : Nat) {limit level : Nat} (rest : List Char) :
    ∀ {v : Json}, Sound limit level v → hasCapital false (writeAt layout depth v ++ rest) =
      (!v.isFinite || hasCapital false rest)
  | .null, _ => rfl
  | .bool true, _ => rfl
  | .bool false, _ => rfl
  | .int n, _ => Json.hasCapital_append (isNumberText_int n).isBare rest
  | .real (.finite s k e), .real _ h => Json.hasCapital_append (isNumberText_real s h).isBare rest
  | .real (.infinite true), _ => rfl
  | .real (.infinite false), _ => rfl
  | .real .nan, _ => rfl
  | .str s, _ => (isStringText_writeString s).hasCapital_append rest
  | .arr [], _ => rfl
  | .arr (v :: items), .arr _ h => by
      have hv := fun ds => hasCapital_writeAt layout (depth + 1) ds (h v List.mem_cons_self)
      have hitems := fun ds => hasCapital_writeItems layout (depth + 1) ds
        fun w hw => h w (List.mem_cons_of_mem v hw)
      have hwhite := fun d => IsWhite.hasCapital_append (isWhite_lineStart layout d)
      rw [writeAt, isFinite, areFinite, Bool.not_and, Bool.or_assoc]
      simp only [List.append_assoc, List.cons_append, List.nil_append, hwhite, hv, hitems,
        hasCapital_mark (c := '[') (by decide), hasCapital_mark (c := ']') (by decide)]
  | .obj [], _ => rfl
  | .obj ((n, v) :: members), .obj _ _ h => by
      have hv := fun ds => hasCapital_writeAt layout (depth + 1) ds (h (n, v) List.mem_cons_self)
      have hmembers := fun ds => hasCapital_writeMembers layout (depth + 1) ds
        fun m hm => h m (List.mem_cons_of_mem (n, v) hm)
      have hwhite := fun d => IsWhite.hasCapital_append (isWhite_lineStart layout d)
      rw [writeAt, isFinite, haveFinite, Bool.not_and, Bool.or_assoc]
      simp only [List.append_assoc, List.cons_append, List.nil_append, hwhite, hv, hmembers,
        (isStringText_writeString n).hasCapital_append, hasCapital_space,
        hasCapital_mark (c := '\x7b') (by decide), hasCapital_mark (c := ':') (by decide),
        hasCapital_mark (c := '\x7d') (by decide)]

/-- Items behind a first one are written with such a letter exactly if a number is not finite. -/
theorem hasCapital_writeItems (layout : Layout) (depth : Nat) {limit level : Nat}
    (rest : List Char) :
    ∀ {items : List Json}, (∀ v ∈ items, Sound limit level v) →
      hasCapital false (writeItems layout depth items ++ rest) =
        (!areFinite items || hasCapital false rest)
  | [], _ => rfl
  | v :: items, h => by
      have hv := fun ds => hasCapital_writeAt layout depth ds (h v List.mem_cons_self)
      have hitems := fun ds => hasCapital_writeItems layout depth ds
        fun w hw => h w (List.mem_cons_of_mem v hw)
      rw [writeItems, areFinite, Bool.not_and, Bool.or_assoc]
      simp only [List.append_assoc, List.cons_append, hv, hitems,
        IsWhite.hasCapital_append (isWhite_gap layout),
        IsWhite.hasCapital_append (isWhite_lineStart layout depth),
        hasCapital_mark (c := ',') (by decide)]

/-- Members behind a first one are written with such a letter exactly if a number is not finite. -/
theorem hasCapital_writeMembers (layout : Layout) (depth : Nat) {limit level : Nat}
    (rest : List Char) :
    ∀ {members : List (String × Json)}, (∀ m ∈ members, Sound limit level m.2) →
      hasCapital false (writeMembers layout depth members ++ rest) =
        (!haveFinite members || hasCapital false rest)
  | [], _ => rfl
  | (n, v) :: members, h => by
      have hv := fun ds => hasCapital_writeAt layout depth ds (h (n, v) List.mem_cons_self)
      have hmembers := fun ds => hasCapital_writeMembers layout depth ds
        fun m hm => h m (List.mem_cons_of_mem (n, v) hm)
      rw [writeMembers, haveFinite, Bool.not_and, Bool.or_assoc]
      simp only [List.append_assoc, List.cons_append, hv, hmembers,
        IsWhite.hasCapital_append (isWhite_gap layout),
        IsWhite.hasCapital_append (isWhite_lineStart layout depth), hasCapital_space,
        (isStringText_writeString n).hasCapital_append, hasCapital_mark (c := ',') (by decide),
        hasCapital_mark (c := ':') (by decide)]

end

/-- **The written documents of the standard are those whose numbers are finite.** -/
theorem isDocument_write_iff (layout : Layout) {limit : Nat} {v : Json} (h : Sound limit 0 v) :
    IsDocument (write layout v).toList ↔ v.isFinite = true := by
  rw [write, String.toList_ofList]
  constructor
  · intro hdocument
    have hnone := hdocument.hasCapital_eq
    rw [← List.append_nil (writeAt layout 0 v), hasCapital_writeAt layout 0 [] h,
      Bool.or_eq_false_iff, Bool.not_eq_false'] at hnone
    exact hnone.1
  · intro hfinite
    have hdocument := IsDocument.value isWhite_nil (derives_writeAt layout 0 h hfinite) isWhite_nil
    rwa [List.nil_append, List.append_nil] at hdocument

end Cohesion.Json
