/-
What the tokens of a source look like.

The tokens of a source tell a little about the text that they were read from.  What stands before
a token starts with a blank or a slash, a token does not start with a blank, a token that starts
like a name is a word, and a dot is alone unless a digit or another dot follows it.  And a word
ends only where its name ends: what follows it immediately does not continue the name.

Main definitions:
* `Token.WellFormed` — what is known about one token;
* `Lexed` — what is known about a list of tokens, kept by every part of it.

Main results:
* `lexed_of_ofText?` — **the tokens of a source are lexed**.
-/
import Cohesion.Java.Token
import Mathlib.Data.List.Infix

set_option autoImplicit false

namespace Cohesion.Java

/-- A node that is a comment. -/
structure Node.IsComment (n : Node) : Prop where
  /-- Its kind. -/
  kind : n.kind = .comment
  /-- It plays no role. -/
  role : n.role = none
  /-- Nothing is in it. -/
  children : n.children = []

/-- Blanks and comments. -/
structure Lead.WellFormed (l : Lead) : Prop where
  /-- The text is empty, or it starts with a blank or a slash. -/
  text : ∀ c ∈ l.text.head?, isBlank c = true ∨ c = '/'
  /-- The nodes are comments. -/
  comments : ∀ n ∈ l.comments, n.IsComment

/-- A text that starts with the character `c` and can be that of a token of a kind. -/
structure StartsToken (kind : TokenKind) (c : Char) (rest : List Char) : Prop where
  /-- It does not start with a blank. -/
  blank : isBlank c = false
  /-- What starts like a name is a word. -/
  word : startsName c = true → kind = .word
  /-- A word is a name. -/
  name : kind = .word → ∀ d ∈ c :: rest, continuesName d = true
  /-- A dot is alone, or a digit or another dot follows. -/
  dot : c = '.' → rest = [] ∨ ∃ d more, rest = d :: more ∧ (d = '.' ∨ d.isDigit = true)

/-- What is known about a token. -/
structure Token.WellFormed (t : Token) : Prop where
  /-- What stands before it. -/
  lead : t.lead.WellFormed
  /-- Its text. -/
  text : ∃ c rest, t.text = c :: rest ∧ StartsToken t.kind c rest

/-- What is known about a list of tokens. -/
structure Lexed (ts : List Token) : Prop where
  /-- Every token. -/
  wellFormed : ∀ t ∈ ts, t.WellFormed
  /-- What follows a word immediately does not continue the name. -/
  apart : ∀ t u, [t, u] <:+: ts → t.kind = .word → u.lead.text = [] →
    ∀ c ∈ u.text.head?, continuesName c = false

theorem Lexed.part {ts part : List Token} (h : Lexed ts) (hpart : part <:+: ts) : Lexed part where
  wellFormed t ht := h.wellFormed t (hpart.subset ht)
  apart t u htu := h.apart t u (htu.trans hpart)

/-! ### Blanks and comments -/

theorem untilCommentEnd_eq {cs inside rest : List Char}
    (h : untilCommentEnd cs = some (inside, rest)) : cs = inside ++ rest := by
  fun_induction untilCommentEnd cs generalizing inside rest with
  | case1 => cases h
  | case2 rest' =>
      cases h
      rfl
  | case3 c rest' _ ih =>
      rw [Option.map_eq_some_iff] at h
      obtain ⟨⟨inside', rest''⟩, h, heq⟩ := h
      cases heq
      rw [List.cons_append, ← ih h]

theorem comment?_eq {cs text rest : List Char} (h : comment? cs = some (text, rest)) :
    cs = text ++ rest ∧ text.head? = some '/' := by
  unfold comment? at h
  split at h
  · cases h
    refine ⟨?_, rfl⟩
    rw [List.cons_append, List.cons_append, List.takeWhile_append_dropWhile]
  · rw [Option.map_eq_some_iff] at h
    obtain ⟨⟨inside, rest'⟩, h, heq⟩ := h
    cases heq
    exact ⟨by rw [untilCommentEnd_eq h]; rfl, rfl⟩
  · cases h

/-- What is found before a token is made of blanks and comments, and with enough fuel no blank
follows. -/
theorem leadFrom_eq (line : Nat) (cs : List Char) (fuel : Nat) :
    cs = (leadFrom line cs fuel).1.text ++ (leadFrom line cs fuel).2 ∧
      (leadFrom line cs fuel).1.WellFormed ∧
      (cs.length < fuel → ∀ c ∈ (leadFrom line cs fuel).2.head?, isBlank c = false) := by
  fun_induction leadFrom line cs fuel with
  | case1 => exact ⟨rfl, ⟨by simp, by simp⟩, by omega⟩
  | case2 line cs fuel text rest hcomment lead rest' hlead ih =>
      rw [hlead] at ih
      obtain ⟨rfl, hwf, hblank⟩ := ih
      obtain ⟨rfl, hhead⟩ := comment?_eq hcomment
      refine ⟨(List.append_assoc _ _ _).symm, ⟨fun c hc => ?_, ?_⟩, fun hfuel => hblank ?_⟩
      · rw [List.head?_append, hhead] at hc
        cases hc
        exact Or.inr rfl
      · exact List.forall_mem_cons.2 ⟨⟨rfl, rfl, rfl⟩, hwf.comments⟩
      · -- the comment is not empty
        cases text with
        | nil => cases hhead
        | cons c text =>
            simp only [List.length_append, List.length_cons] at hfuel ⊢
            omega
  | case3 => exact ⟨rfl, ⟨by simp, by simp⟩, by simp⟩
  | case4 line fuel c rest hc lead rest' hlead _ ih =>
      rw [hlead] at ih
      obtain ⟨rfl, hwf, hblank⟩ := ih
      refine ⟨rfl, ⟨fun d hd => ?_, hwf.comments⟩, fun hfuel => hblank ?_⟩
      · cases hd
        exact Or.inl hc
      · rw [List.length_cons] at hfuel
        exact Nat.lt_of_succ_lt_succ hfuel
  | case5 line fuel c rest hc _ => exact ⟨rfl, ⟨by simp, by simp⟩, fun _ => by simpa using hc⟩

/-! ### One token -/

theorem head?_untilNumberEnd {hexadecimal : Bool} {c : Char} {cs : List Char}
    (hc : cs.head? = some c) (h : (c.isAlphanum || c == '_' || c == '.') = true) :
    (untilNumberEnd hexadecimal cs).1.head? = some c := by
  fun_cases untilNumberEnd hexadecimal cs with
  | case1 => cases hc
  | case2 => exact hc
  | case3 => exact hc
  | case4 mark sign rest marks _ hmark =>
      cases hc
      exact absurd h hmark
  | case5 => exact hc
  | case6 d hd =>
      cases hc
      exact absurd h hd

theorem symbolAt_cons (c : Char) (cs : List Char) :
    ∃ rest, symbolAt (c :: cs) = c :: rest ∧ (c = '.' → rest = [] ∨ rest = ['.', '.']) := by
  unfold symbolAt
  cases hfind : longSymbols.find? (·.isPrefixOf (c :: cs)) with
  | none => exact ⟨[], rfl, fun _ => Or.inl rfl⟩
  | some symbol =>
      have hmem : symbol ∈ longSymbols := List.mem_of_find?_eq_some hfind
      have hfront := List.find?_some hfind
      simp only [longSymbols, List.mem_cons, List.not_mem_nil, or_false] at hmem
      rcases hmem with rfl | rfl | rfl | rfl | rfl
      all_goals
        simp only [List.isPrefixOf, Bool.and_eq_true, beq_iff_eq] at hfront
        obtain ⟨rfl, -⟩ := hfront
        exact ⟨_, rfl, by simp⟩

/-- A number starts with its first digit, or with a dot and a digit. -/
theorem number_cons {c : Char} {cs : List Char}
    (h : (c.isDigit || (c == '.' && cs.head?.any (·.isDigit))) = true) :
    ∃ rest, (number (c :: cs)).1 = c :: rest ∧
      (c = '.' → ∃ d more, rest = d :: more ∧ d.isDigit = true) := by
  have hdigit : ∀ {d : Char}, d.isDigit = true →
      (d.isAlphanum || d == '_' || d == '.') = true := by
    intro d hd
    simp [Char.isAlphanum, hd]
  by_cases hdot : c = '.'
  · subst hdot
    cases cs with
    | nil => simp [Char.isDigit] at h
    | cons d cs =>
        have hd : d.isDigit = true := by simpa [Char.isDigit] using h
        have htail : (number ('.' :: d :: cs)).1 = '.' :: (untilNumberEnd false (d :: cs)).1 := by
          simp [number, untilNumberEnd]
        obtain ⟨more, hmore⟩ : ∃ more, (untilNumberEnd false (d :: cs)).1 = d :: more :=
          List.head?_eq_some_iff.1 (head?_untilNumberEnd rfl (hdigit hd))
        exact ⟨_, htail, fun _ => ⟨d, more, hmore, hd⟩⟩
  · have hd : c.isDigit = true := by simpa [hdot] using h
    have hhead : (number (c :: cs)).1.head? = some c := by
      unfold number
      split <;> exact head?_untilNumberEnd rfl (hdigit hd)
    obtain ⟨more, hmore⟩ := List.head?_eq_some_iff.1 hhead
    exact ⟨more, hmore, fun h => absurd h hdot⟩

theorem startsName_continues {c : Char} (h : startsName c = true) : continuesName c = true := by
  rw [continuesName, h, Bool.true_or]

theorem startsToken_quoted {c : Char} (hc : isBlank c = false) (hname : startsName c = false)
    (hdot : c ≠ '.') (more : List Char) : StartsToken .literal c more where
  blank := hc
  word h := by
    rw [hname] at h
    cases h
  name := nofun
  dot h := absurd h hdot

theorem startsToken_word {c : Char} (hc : isBlank c = false) (hstart : startsName c = true)
    (cs : List Char) : StartsToken .word c (cs.takeWhile continuesName) where
  blank := hc
  word _ := rfl
  name _ d hd := by
    rw [← List.takeWhile_cons_of_pos (startsName_continues hstart)] at hd
    exact List.all_eq_true.1 List.all_takeWhile d hd
  dot := by
    rintro rfl
    exact absurd hstart (by decide)

theorem head?_dropWhile_continuesName {cs : List Char} {c : Char}
    (h : c ∈ (cs.dropWhile continuesName).head?) : continuesName c = false := by
  have hhead := List.head?_dropWhile_not continuesName cs
  rw [h] at hhead
  simpa using hhead

/-- What is read at the front of a text, and what follows a word. -/
theorem startsToken_of_tokenAt? {cs text rest : List Char} {kind : TokenKind}
    (hblank : ∀ c ∈ cs.head?, isBlank c = false) (h : tokenAt? cs = some (kind, text, rest)) :
    (∃ c more, text = c :: more ∧ cs.head? = some c ∧ StartsToken kind c more) ∧
      (kind = .word → ∀ c ∈ rest.head?, continuesName c = false) := by
  -- the three kinds of quotes are told by their first characters
  unfold tokenAt? at h
  split at h
  · cases h
  · rw [Option.map_eq_some_iff] at h
    obtain ⟨_, -, heq⟩ := h
    cases heq
    exact ⟨⟨_, _, rfl, rfl, startsToken_quoted rfl (by decide) (by decide) _⟩, nofun⟩
  · rw [Option.map_eq_some_iff] at h
    obtain ⟨_, -, heq⟩ := h
    cases heq
    exact ⟨⟨_, _, rfl, rfl, startsToken_quoted rfl (by decide) (by decide) _⟩, nofun⟩
  · rw [Option.map_eq_some_iff] at h
    obtain ⟨_, -, heq⟩ := h
    cases heq
    exact ⟨⟨_, _, rfl, rfl, startsToken_quoted rfl (by decide) (by decide) _⟩, nofun⟩
  · rename_i c cs _ _ _
    have hc : isBlank c = false := hblank c rfl
    split at h
    · rename_i hstart
      cases h
      exact ⟨⟨c, _, List.takeWhile_cons_of_pos (startsName_continues hstart), rfl,
        startsToken_word hc hstart cs⟩, fun _ _ => head?_dropWhile_continuesName⟩
    · rename_i hstart
      have hword : ∀ {k : TokenKind}, startsName c = true → k = .word := fun h => absurd h hstart
      split at h
      · rename_i hnumber
        cases h
        obtain ⟨more, hmore, hdot⟩ := number_cons hnumber
        refine ⟨⟨c, more, hmore, rfl, hc, hword, nofun, fun h => ?_⟩, nofun⟩
        obtain ⟨d, rest, rfl, hd⟩ := hdot h
        exact Or.inr ⟨d, rest, rfl, Or.inr hd⟩
      · cases h
        obtain ⟨more, hmore, hdot⟩ := symbolAt_cons c cs
        refine ⟨⟨c, more, hmore, rfl, hc, hword, nofun, fun h => ?_⟩, nofun⟩
        rcases hdot h with rfl | rfl
        · exact Or.inl rfl
        · exact Or.inr ⟨_, _, rfl, Or.inl rfl⟩

/-! ### All tokens -/

/-- One more token before lexed tokens. -/
theorem Lexed.cons {t : Token} {ts : List Token} (h : Lexed ts) (ht : t.WellFormed)
    (hnext : ∀ u ∈ ts.head?, t.kind = .word → u.lead.text = [] →
      ∀ c ∈ u.text.head?, continuesName c = false) : Lexed (t :: ts) where
  wellFormed := List.forall_mem_cons.2 ⟨ht, h.wellFormed⟩
  apart := by
    intro u v huv
    rcases List.infix_cons_iff.1 huv with huv | huv
    · rw [List.cons_prefix_cons] at huv
      obtain ⟨rfl, hv⟩ := huv
      refine hnext v ?_
      cases ts with
      | nil => simp at hv
      | cons w ts =>
          rw [List.cons_prefix_cons] at hv
          rw [hv.1]
          rfl
    · exact h.apart u v huv

/-- Tokens that are read from a text are lexed, and the first one stands at its front. -/
theorem lexed_of_tokensFrom {line : Nat} {cs : List Char} {fuel : Nat} {s : Source}
    (h : tokensFrom line cs fuel = some s) :
    Lexed s.tokens ∧ s.trailing.WellFormed ∧
      ∀ t ∈ s.tokens.head?, t.lead.text = [] → t.text.head? = cs.head? := by
  induction fuel generalizing line cs s with
  | zero => cases h
  | succ fuel ih =>
      obtain ⟨heq, hlead, hblank⟩ := leadFrom_eq line cs (cs.length + 1)
      unfold tokensFrom at h
      dsimp only at h
      split at h
      · cases h
        exact ⟨⟨by simp, by simp⟩, hlead, by simp⟩
      · rename_i c rest hrest
        rw [hrest] at heq hblank h
        simp only [Option.bind_eq_bind, Option.bind_eq_some_iff] at h
        obtain ⟨⟨kind, text, rest'⟩, htoken, s', hsource, hs⟩ := h
        cases hs
        obtain ⟨htokens, htrailing, hfirst⟩ := ih hsource
        obtain ⟨⟨d, more, htext, hhead, hstarts⟩, hnext⟩ :=
          startsToken_of_tokenAt? (hblank (Nat.lt_succ_self _)) htoken
        refine ⟨htokens.cons ⟨hlead, d, more, htext, hstarts⟩ ?_, htrailing, ?_⟩
        · intro u hu hword hempty e he
          rw [hfirst u hu hempty] at he
          exact hnext hword e he
        · rintro t ht hempty
          cases ht
          dsimp only at hempty ⊢
          rw [heq, hempty, htext, List.nil_append, hhead]
          rfl

theorem lexed_of_ofText? {cs : List Char} {s : Source} (h : Source.ofText? cs = some s) :
    Lexed s.tokens ∧ s.trailing.WellFormed := by
  obtain ⟨hlexed, htrailing, -⟩ := lexed_of_tokensFrom h
  exact ⟨hlexed, htrailing⟩

end Cohesion.Java
