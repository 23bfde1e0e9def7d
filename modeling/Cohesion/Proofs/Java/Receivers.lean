/-
Texts that differ in layout.

The text of a node includes the blanks and comments inside it.  Two texts of the same tokens differ
in nothing else.  So a text of one word is the same in every layout, and so is a name with dots
unless something stands at a dot.  What stands before the dot of an invocation is told from its
text, and a text with a blank or a comment inside is no name: two layouts say the same about a
receiver, unless the tokens make a name with dots and one layout has something at a dot.

Main definitions:
* `Twin` — tokens that differ only in their lines and in what stands before them;
* `SameTokens` — texts of the same tokens;
* `isWord`, `isUnspaced` — texts of one word, and of names with nothing at their dots;
* `Dotted`, `SpellsName` — tokens and texts of words with dots between them.

Main results:
* `SameTokens.eq_of_isWord`, `SameTokens.eq_of_isUnspaced` — names that every layout has;
* `dotted_of_isDottedName` — what spells a name with dots is a list of words and dots;
* `SameTokens.receiver_eq` — **layouts agree on receivers** with nothing inside names with dots.
-/
import Cohesion.Proofs.Files.PathText
import Cohesion.Proofs.Java.Tokens
import Cohesion.Resolution.Receiver

set_option autoImplicit false

namespace Cohesion

/-! ### Names with dots -/

/-- A text that consists of simple names with dots between them, up to a line feed at its end. -/
def IsDottedName (cs : List Char) : Prop :=
  ∀ part ∈ Text.splitAt '.' (dropFinalNewline cs), isSimpleName part = true

theorem dropFinalNewline_append (a : List Char) {b : List Char} (hb : b ≠ []) :
    dropFinalNewline (a ++ b) = a ++ dropFinalNewline b := by
  unfold dropFinalNewline
  rw [List.getLast?_append_of_ne_nil _ hb, List.dropLast_append_of_ne_nil hb]
  split <;> rfl

theorem dropFinalNewline_cons {c : Char} (hc : c ≠ '\n') (cs : List Char) :
    dropFinalNewline (c :: cs) = c :: dropFinalNewline cs := by
  cases cs with
  | nil => simp [dropFinalNewline, hc]
  | cons d cs => exact dropFinalNewline_append [c] (List.cons_ne_nil d cs)

/-- What stands before the first separator belongs to the first part. -/
theorem Text.splitAt_append {sep : Char} {a : List Char} (ha : sep ∉ a) (b : List Char) :
    ∃ part parts, Text.splitAt sep b = part :: parts ∧
      Text.splitAt sep (a ++ b) = (a ++ part) :: parts := by
  induction a with
  | nil =>
      induction b with
      | nil => exact ⟨[], [], rfl, rfl⟩
      | cons c b ih =>
          obtain ⟨part, parts, hb, -⟩ := ih
          rw [List.nil_append, Text.splitAt]
          split
          · exact ⟨[], _, rfl, rfl⟩
          · rw [hb]
            exact ⟨c :: part, parts, rfl, rfl⟩
  | cons c a ih =>
      rw [List.mem_cons, not_or] at ha
      obtain ⟨part, parts, hb, hab⟩ := ih ha.2
      refine ⟨part, parts, hb, ?_⟩
      rw [List.cons_append, Text.splitAt, if_neg (by simpa using Ne.symm ha.1), hab]
      rfl

theorem Text.mem_splitAt {sep c : Char} {cs : List Char} (hc : c ∈ cs) :
    c = sep ∨ ∃ part ∈ Text.splitAt sep cs, c ∈ part := by
  induction cs with
  | nil => cases hc
  | cons d cs ih =>
      obtain ⟨part, parts, hsplit, -⟩ := Text.splitAt_append (List.not_mem_nil (a := sep)) cs
      rw [hsplit] at ih
      rw [Text.splitAt, hsplit]
      split
      · rename_i hd
        rcases List.mem_cons.1 hc with rfl | hc
        · exact Or.inl (by simpa using hd)
        · obtain h | ⟨p, hp, hmem⟩ := ih hc
          · exact Or.inl h
          · exact Or.inr ⟨p, List.mem_cons_of_mem _ hp, hmem⟩
      · rcases List.mem_cons.1 hc with rfl | hc
        · exact Or.inr ⟨_, List.mem_cons_self, List.mem_cons_self⟩
        · obtain h | ⟨p, hp, hmem⟩ := ih hc
          · exact Or.inl h
          · rcases List.mem_cons.1 hp with rfl | hp
            · exact Or.inr ⟨_, List.mem_cons_self, List.mem_cons_of_mem _ hmem⟩
            · exact Or.inr ⟨p, List.mem_cons_of_mem _ hp, hmem⟩

/-! ### Characters of names -/

theorem toNat_lt_of_isAlpha {c : Char} (h : c.isAlpha = true) : c.toNat < 0x80 := by
  have hA : 'A'.val.toNat = 65 := rfl
  have hZ : 'Z'.val.toNat = 90 := rfl
  have ha : 'a'.val.toNat = 97 := rfl
  have hz : 'z'.val.toNat = 122 := rfl
  delta Char.isAlpha Char.isUpper Char.isLower at h
  simp only [Bool.or_eq_true, decide_eq_true_eq, ge_iff_le, Bool.and_eq_true,
    UInt32.le_iff_toNat_le] at h
  change c.val.toNat < 128
  omega

theorem startsSimpleName_of_isDigit {c : Char} (h : c.isDigit = true) :
    startsSimpleName c = false := by
  have h0 : '0'.val.toNat = 48 := rfl
  have h9 : '9'.val.toNat = 57 := rfl
  have hA : 'A'.val.toNat = 65 := rfl
  have ha : 'a'.val.toNat = 97 := rfl
  by_contra hstarts
  delta Char.isDigit at h
  rw [Bool.not_eq_false, startsSimpleName] at hstarts
  delta Char.isAlpha Char.isUpper Char.isLower at hstarts
  simp only [ge_iff_le, Bool.and_eq_true, decide_eq_true_eq, UInt32.le_iff_toNat_le] at h
  simp only [Bool.or_eq_true, decide_eq_true_eq, ge_iff_le, Bool.and_eq_true,
    UInt32.le_iff_toNat_le, beq_iff_eq] at hstarts
  rcases hstarts with (hletter | rfl) | rfl
  · omega
  · exact absurd h (by decide)
  · exact absurd h (by decide)

theorem startsSimpleName_continues {c : Char} (h : startsSimpleName c = true) :
    continuesSimpleName c = true := by
  simp only [startsSimpleName, Bool.or_eq_true, beq_iff_eq] at h
  rcases h with (h | rfl) | rfl
  · rw [continuesSimpleName, Text.isWordChar, if_pos (toNat_lt_of_isAlpha h), Char.isAlphanum, h]
    rfl
  · decide
  · decide

theorem continuesSimpleName_of_mem {cs : List Char} (h : isSimpleName cs = true) {c : Char}
    (hc : c ∈ cs) : continuesSimpleName c = true := by
  cases cs with
  | nil => cases hc
  | cons d cs =>
      simp only [isSimpleName, Bool.and_eq_true, List.all_eq_true] at h
      rcases List.mem_cons.1 hc with rfl | hc
      · exact startsSimpleName_continues h.1
      · exact h.2 c hc

theorem dot_notMem {cs : List Char} (h : isSimpleName cs = true) : '.' ∉ cs := by
  intro hmem
  have hdot : continuesSimpleName '.' = false := by decide
  rw [continuesSimpleName_of_mem h hmem] at hdot
  cases hdot

/-- The characters of a name with dots. -/
theorem IsDottedName.of_mem {cs : List Char} (h : IsDottedName cs) {c : Char}
    (hc : c ∈ dropFinalNewline cs) : c = '.' ∨ continuesSimpleName c = true := by
  rcases Text.mem_splitAt hc with hdot | ⟨part, hpart, hmem⟩
  · exact Or.inl hdot
  · exact Or.inr (continuesSimpleName_of_mem (h part hpart) hmem)

theorem isDottedName_of_isSimpleName {cs : List Char}
    (h : isSimpleName (dropFinalNewline cs) = true) : IsDottedName cs := by
  rw [IsDottedName, Text.splitAt_of_notMem (dot_notMem h)]
  exact List.forall_mem_singleton.2 h

theorem IsDottedName.ne_nil {cs : List Char} (h : IsDottedName cs) : cs ≠ [] := by
  rintro rfl
  exact absurd (h [] List.mem_cons_self) (by decide)

/-- A simple name and a dot before a name with dots. -/
theorem IsDottedName.dot {part cs : List Char} (h : IsDottedName cs)
    (hpart : isSimpleName part = true) : IsDottedName (part ++ '.' :: cs) := by
  have hfinal : dropFinalNewline (part ++ '.' :: cs) = part ++ '.' :: dropFinalNewline cs := by
    rw [dropFinalNewline_append _ (List.cons_ne_nil _ _), dropFinalNewline_cons (by decide)]
  rw [IsDottedName, hfinal, Text.splitAt_append_cons (dot_notMem hpart), List.forall_mem_cons]
  exact ⟨hpart, h⟩

/-- Every receiver that says something is a name with dots. -/
theorem isDottedName_of_ofText {s : String} (h : Receiver.ofText (some s) ≠ .expression) :
    IsDottedName s.toList := by
  unfold Receiver.ofText at h
  dsimp only at h
  split at h
  · rename_i hs
    rw [beq_iff_eq] at hs
    subst hs
    exact isDottedName_of_isSimpleName (by decide)
  · split at h
    · rename_i hs
      rw [beq_iff_eq] at hs
      subst hs
      exact isDottedName_of_isSimpleName (by decide)
    · split at h
      · rename_i hfront
        obtain ⟨field, hfield⟩ := List.isPrefixOf_iff_prefix.1 hfront
        split at h
        · rename_i hname
          -- the field comes after the dot
          have hdrop : s.toList.drop "this.".length = field := by
            rw [← hfield]
            rfl
          rw [hdrop] at hname
          rw [← hfield]
          have hthis : isSimpleName "this".toList = true := by decide
          exact (isDottedName_of_isSimpleName hname).dot hthis
        · exact absurd rfl h
      · split at h
        · rename_i hname
          exact isDottedName_of_isSimpleName hname
        · split at h
          · rename_i hname
            simp only [isQualifiedName, Bool.and_eq_true, List.all_eq_true] at hname
            exact hname.2
          · exact absurd rfl h

/-- The first character of a name with dots. -/
theorem IsDottedName.startsSimpleName {c : Char} {cs : List Char} (h : IsDottedName (c :: cs))
    (hc : c ≠ '\n') : startsSimpleName c = true := by
  rw [IsDottedName, dropFinalNewline_cons hc] at h
  by_cases hdot : c = '.'
  · subst hdot
    have hsplit : Text.splitAt '.' ('.' :: dropFinalNewline cs) = _ :: _ :=
      Text.splitAt_append_cons List.not_mem_nil _
    rw [hsplit] at h
    exact absurd (h [] List.mem_cons_self) (by decide)
  · have hnotMem : '.' ∉ [c] := by simpa using Ne.symm hdot
    obtain ⟨part, parts, -, hsplit⟩ := Text.splitAt_append hnotMem (dropFinalNewline cs)
    rw [List.cons_append, List.nil_append] at hsplit
    rw [hsplit] at h
    have hpart := h _ List.mem_cons_self
    rw [List.cons_append, isSimpleName, Bool.and_eq_true] at hpart
    exact hpart.1

/-- What comes after a dot in a name with dots. -/
theorem IsDottedName.tail {first cs : List Char} (h : IsDottedName (first ++ '.' :: cs))
    (hfirst : '.' ∉ first) : IsDottedName cs := by
  rw [IsDottedName, dropFinalNewline_append _ (List.cons_ne_nil '.' cs),
    dropFinalNewline_cons (by decide), Text.splitAt_append_cons hfirst] at h
  exact (List.forall_mem_cons.1 h).2

namespace Java

/-! ### Words -/

theorem startsName_of_simple {c : Char} (h : startsSimpleName c = true) :
    startsName c = true := by
  rw [startsSimpleName] at h
  rw [startsName, h, Bool.true_or]

theorem continuesName_of_simple {c : Char} (h : continuesSimpleName c = true) :
    continuesName c = true := by
  simp only [continuesSimpleName, Text.isWordChar, Char.isAlphanum, Bool.or_eq_true,
    beq_iff_eq] at h
  simp only [continuesName, startsName, Bool.or_eq_true, beq_iff_eq, decide_eq_true_eq]
  by_cases hascii : c.toNat < 0x80
  · simp only [hascii, if_true, Bool.or_eq_true, beq_iff_eq] at h
    tauto
  · exact Or.inl (Or.inr (Nat.le_of_not_lt hascii))

/-- Blanks do not belong to names. -/
theorem isBlank_eq_false {c : Char} (h : continuesName c = true) : isBlank c = false := by
  by_contra hblank
  rw [Bool.not_eq_false, isBlank, Bool.or_eq_true, Bool.and_eq_true, beq_iff_eq, decide_eq_true_eq,
    decide_eq_true_eq] at hblank
  -- a blank is one of six characters
  have hcases : c = ' ' ∨ c = '\t' ∨ c = '\n' ∨ c = '\x0b' ∨ c = '\x0c' ∨ c = '\r' := by
    rcases hblank with rfl | ⟨hlow, hhigh⟩
    · exact Or.inl rfl
    · have hlow' : 9 ≤ c.toNat := hlow
      have hhigh' : c.toNat ≤ 13 := hhigh
      simp only [← Char.toNat_inj]
      change c.toNat = 32 ∨ c.toNat = 9 ∨ c.toNat = 10 ∨ c.toNat = 11 ∨ c.toNat = 12 ∨ c.toNat = 13
      omega
  rcases hcases with rfl | rfl | rfl | rfl | rfl | rfl
  all_goals exact absurd h (by decide)

/-! ### Layouts -/

/-- Two tokens that differ only in their lines and in what stands before them. -/
structure Twin where
  left : Token
  right : Token
  kind : left.kind = right.kind
  text : left.text = right.text

/-- The tokens of the one source. -/
def lefts (ws : List Twin) : List Token := ws.map (·.left)

/-- The tokens of the other source. -/
def rights (ws : List Twin) : List Token := ws.map (·.right)

/-! ### Texts of tokens -/

/-- The text of tokens with everything before them. -/
def spellAll (ts : List Token) : List Char := ts.flatMap fun t => t.lead.text ++ t.text

/-- The text of tokens from the first character of the first one on. -/
def spell : List Token → List Char
  | [] => []
  | t :: rest => t.text ++ spellAll rest

/-- The text of tokens with nothing between them. -/
theorem spell_cons_cons {t u : Token} {rest : List Token} (hu : u.lead.text = []) :
    spell (t :: u :: rest) = t.text ++ spell (u :: rest) := by
  simp [spell, spellAll, hu]

/-- With nothing between them two lists of twins have the same text. -/
theorem spell_lefts_eq_rights {ws : List Twin} (hleft : ∀ t ∈ (lefts ws).tail, t.lead.text = [])
    (hright : ∀ t ∈ (rights ws).tail, t.lead.text = []) : spell (lefts ws) = spell (rights ws) := by
  cases ws with
  | nil => rfl
  | cons w ws =>
      simp only [lefts, rights, List.map_cons, List.tail_cons, List.forall_mem_map] at hleft hright
      simp only [lefts, rights, List.map_cons, spell, spellAll, List.flatMap_map, w.text]
      congr 1
      exact List.flatMap_congr fun v hv => by rw [hleft v hv, hright v hv, v.text]

/-- Two texts of the same tokens, with other blanks and comments between them. -/
inductive SameTokens : List Char → List Char → Prop where
  /-- The tokens. -/
  | intro {ws : List Twin} : Lexed (lefts ws) → Lexed (rights ws) →
      SameTokens (spell (lefts ws)) (spell (rights ws))

theorem mem_of_mem_dropFinalNewline {c : Char} {cs : List Char} (h : c ∈ dropFinalNewline cs) :
    c ∈ cs := by
  rw [dropFinalNewline] at h
  split at h
  · exact List.mem_of_mem_dropLast h
  · exact h

/-- Nothing stands between tokens whose text has only the characters of names with dots, up to a
line feed at its end. -/
theorem leads_eq_nil {t : Token} {rest : List Token} (hlexed : Lexed (t :: rest))
    (h : ∀ c ∈ dropFinalNewline (spell (t :: rest)), c = '.' ∨ continuesName c = true) :
    ∀ u ∈ rest, u.lead.text = [] := by
  intro u hu
  obtain ⟨front, back, rfl⟩ := List.append_of_mem hu
  have hwf := hlexed.wellFormed u (by simp)
  obtain ⟨d, more, htext, -⟩ := hwf.text
  by_contra hlead
  obtain ⟨b, blanks, hb⟩ := List.exists_cons_of_ne_nil hlead
  -- something follows the blank or slash, so it is not a line feed that does not count
  have hmem : b ∈ dropFinalNewline (spell (t :: (front ++ u :: back))) := by
    have hspell : spell (t :: (front ++ u :: back)) =
        (t.text ++ spellAll front ++ [b]) ++ (blanks ++ d :: (more ++ spellAll back)) := by
      simp [spell, spellAll, hb, htext]
    rw [hspell, dropFinalNewline_append _ (by simp)]
    simp
  rcases hwf.lead.text b (by rw [hb]; rfl) with hblank | rfl
  · rcases h b hmem with rfl | hcontinues
    · cases hblank
    · rw [isBlank_eq_false hcontinues] at hblank
      cases hblank
  · exact absurd (h '/' hmem) (by decide)

/-! ### Names that every layout has -/

/-- A text of one word, or of none. -/
def isWord (text : List Char) : Bool := text.head?.all startsName && text.all continuesName

/-- A text with only the characters of names with dots. -/
def isUnspaced (text : List Char) : Bool := text.all fun c => c == '.' || continuesName c

theorem isUnspaced_of_isWord {text : List Char} (h : isWord text = true) :
    isUnspaced text = true := by
  rw [isWord, Bool.and_eq_true, List.all_eq_true] at h
  rw [isUnspaced, List.all_eq_true]
  intro c hc
  rw [h.2 c hc, Bool.or_true]

/-- Nothing stands between the tokens of such a text. -/
theorem leads_of_isUnspaced {ts : List Token} (hlexed : Lexed ts)
    (h : isUnspaced (spell ts) = true) : ∀ u ∈ ts.tail, u.lead.text = [] := by
  cases ts with
  | nil => simp
  | cons t rest =>
      simp only [isUnspaced, List.all_eq_true, Bool.or_eq_true, beq_iff_eq] at h
      exact leads_eq_nil hlexed fun c hc => h c (mem_of_mem_dropFinalNewline hc)

/-- Two layouts of a name are the same if nothing stands at its dots. -/
theorem SameTokens.eq_of_isUnspaced {text text' : List Char} (h : SameTokens text text')
    (hl : isUnspaced text = true) (hr : isUnspaced text' = true) : text = text' := by
  obtain ⟨hlexed, hlexed'⟩ := h
  exact spell_lefts_eq_rights (leads_of_isUnspaced hlexed hl) (leads_of_isUnspaced hlexed' hr)

/-- A word is the same in every layout. -/
theorem SameTokens.eq_of_isWord {text text' : List Char} (h : SameTokens text text')
    (hword : isWord text = true) : text = text' := by
  obtain @⟨ws, hlexed, -⟩ := h
  match ws with
  | [] => rfl
  | [w] => simp [lefts, rights, spell, spellAll, w.text]
  | w :: v :: rest =>
      exfalso
      have hlead := leads_of_isUnspaced hlexed (isUnspaced_of_isWord hword)
      obtain ⟨c, more, hc, hstarts⟩ := (hlexed.wellFormed w.left (by simp [lefts])).text
      obtain ⟨d, after, hd, -⟩ := (hlexed.wellFormed v.left (by simp [lefts])).text
      -- the second token would continue the word
      have hnext : v.left.lead.text = [] := hlead v.left (by simp [lefts])
      have hspell : spell (lefts (w :: v :: rest)) =
          c :: more ++ d :: (after ++ spellAll (lefts rest)) := by
        simp [lefts, spell, spellAll, hc, hd, hnext]
      rw [hspell, isWord, Bool.and_eq_true, List.all_eq_true] at hword
      have hapart := hlexed.apart w.left v.left ⟨[], lefts rest, rfl⟩ (hstarts.word hword.1) hnext d
        (by rw [hd]; rfl)
      rw [hword.2 d (by simp)] at hapart
      cases hapart

/-! ### Words with dots between them -/

/-- Words with dots between them. -/
inductive Dotted : List Token → Prop where
  /-- A word. -/
  | single {w : Token} : w.kind = .word → Dotted [w]
  /-- A word and a dot before others. -/
  | dot {w d v : Token} {rest : List Token} : w.kind = .word → d.text = ['.'] →
      Dotted (v :: rest) → Dotted (w :: d :: v :: rest)

theorem dotted_lefts_iff (ws : List Twin) : Dotted (lefts ws) ↔ Dotted (rights ws) := by
  induction ws using List.twoStepInduction with
  | nil => exact Iff.rfl
  | singleton w =>
      constructor
      · rintro (h | _)
        exact .single (w.kind ▸ h)
      · rintro (h | _)
        exact .single (w.kind.symm ▸ h)
  | cons_cons w d ws ih _ =>
      cases ws with
      | nil => constructor <;> rintro (_ | _)
      | cons v ws =>
          constructor
          · rintro (_ | ⟨hw, hd, h⟩)
            exact .dot (w.kind ▸ hw) (d.text ▸ hd) (ih.1 h)
          · rintro (_ | ⟨hw, hd, h⟩)
            exact .dot (w.kind.symm ▸ hw) (d.text.symm ▸ hd) (ih.2 h)

theorem ne_newline {c : Char} (h : isBlank c = false) : c ≠ '\n' := by
  rintro rfl
  cases h

/-- What spells a name with dots starts with a word. -/
theorem word_of_isDottedName {t : Token} {rest : List Token} (hlexed : Lexed (t :: rest))
    (h : IsDottedName (spell (t :: rest))) : t.kind = .word := by
  obtain ⟨c, more, htext, hstarts⟩ := (hlexed.wellFormed t List.mem_cons_self).text
  rw [spell, htext, List.cons_append] at h
  exact hstarts.word (startsName_of_simple (h.startsSimpleName (ne_newline hstarts.blank)))

/-- What follows a word in a name with dots, and is no part of the word, is a dot. -/
theorem eq_dot_of_isDottedName {kind : TokenKind} {front after rest : List Char} {d : Char}
    (hstarts : StartsToken kind d after) (hd : continuesName d = false)
    (h : IsDottedName (front ++ d :: (after ++ rest))) : d = '.' := by
  have hmem : d ∈ dropFinalNewline (front ++ d :: (after ++ rest)) := by
    rw [dropFinalNewline_append _ (List.cons_ne_nil _ _),
      dropFinalNewline_cons (ne_newline hstarts.blank)]
    simp
  refine (h.of_mem hmem).resolve_right fun hcontinues => ?_
  rw [continuesName_of_simple hcontinues] at hd
  cases hd

/-- A dot with a name after it is a token of its own. -/
theorem eq_nil_of_isDottedName {kind : TokenKind} {after rest : List Char}
    (hstarts : StartsToken kind '.' after) (h : IsDottedName (after ++ rest)) : after = [] := by
  refine (hstarts.dot rfl).resolve_right ?_
  rintro ⟨e, others, rfl, he⟩
  have hne : e ≠ '\n' := by
    rintro rfl
    rcases he with he | he <;> cases he
  have hstart := h.startsSimpleName hne
  rcases he with rfl | he
  · cases hstart
  · exact absurd hstart (by simp [startsSimpleName_of_isDigit he])

/-- Tokens that spell a name with dots, with nothing between them, are words and dots. -/
theorem dotted_of_isDottedName {t : Token} {rest : List Token} (hlexed : Lexed (t :: rest))
    (hleads : ∀ u ∈ rest, u.lead.text = []) (h : IsDottedName (spell (t :: rest))) :
    Dotted (t :: rest) := by
  match rest with
  | [] => exact .single (word_of_isDottedName hlexed h)
  | u :: rest =>
      have hword := word_of_isDottedName hlexed h
      obtain ⟨c, more, htext, hstarts⟩ := (hlexed.wellFormed t List.mem_cons_self).text
      have hname : ∀ e ∈ t.text, continuesName e = true := by
        rw [htext]
        exact hstarts.name hword
      have hnoDot : '.' ∉ t.text := fun hmem => absurd (hname _ hmem) (by decide)
      obtain ⟨d, after, hu, hustarts⟩ :=
        (hlexed.wellFormed u (List.mem_cons_of_mem _ List.mem_cons_self)).text
      -- the second token starts where the word ends, so it is a dot
      have hd : continuesName d = false :=
        hlexed.apart t u ⟨[], rest, rfl⟩ hword (hleads u List.mem_cons_self) d (by rw [hu]; rfl)
      rw [spell_cons_cons (hleads u List.mem_cons_self), spell, hu, List.cons_append] at h
      obtain rfl := eq_dot_of_isDottedName hustarts hd h
      have htail := h.tail hnoDot
      obtain rfl := eq_nil_of_isDottedName hustarts htail
      match rest with
      | [] => exact absurd rfl htail.ne_nil
      | v :: rest =>
          have hv := hleads v (List.mem_cons_of_mem _ List.mem_cons_self)
          refine .dot hword hu (dotted_of_isDottedName (hlexed.part ⟨[t, u], [], by simp⟩)
            (fun w hw => hleads w (by simp [hw])) ?_)
          rwa [List.nil_append, spellAll, List.flatMap_cons, hv, List.nil_append] at htail

/-- Something between tokens makes their text no name. -/
theorem leads_of_isDottedName {t : Token} {rest : List Token} (hlexed : Lexed (t :: rest))
    (h : IsDottedName (spell (t :: rest))) : ∀ u ∈ rest, u.lead.text = [] :=
  leads_eq_nil hlexed fun _ hc => (h.of_mem hc).imp_right continuesName_of_simple

/-- A receiver that says something is spelled by words with dots between them. -/
theorem dotted_of_ofText {ts : List Token} (hlexed : Lexed ts)
    (h : Receiver.ofText (some (String.ofList (spell ts))) ≠ .expression) : Dotted ts := by
  have hname := isDottedName_of_ofText h
  rw [String.toList_ofList] at hname
  cases ts with
  | nil => exact absurd rfl hname.ne_nil
  | cons t rest => exact dotted_of_isDottedName hlexed (leads_of_isDottedName hlexed hname) hname

/-- A text of words with dots between them, whatever stands at the dots. -/
def SpellsName (text : List Char) : Prop := ∃ ts, Lexed ts ∧ Dotted ts ∧ spell ts = text

/-- **Layouts agree on receivers** with nothing inside names with dots. -/
theorem SameTokens.receiver_eq {text text' : List Char} (h : SameTokens text text')
    (hl : SpellsName text → isUnspaced text = true)
    (hr : SpellsName text' → isUnspaced text' = true) :
    Receiver.ofText (some (String.ofList text)) = Receiver.ofText (some (String.ofList text')) := by
  have hsame := h
  obtain @⟨ws, hlexed, hlexed'⟩ := h
  by_cases hdotted : Dotted (lefts ws)
  · rw [hsame.eq_of_isUnspaced (hl ⟨_, hlexed, hdotted, rfl⟩)
      (hr ⟨_, hlexed', (dotted_lefts_iff ws).1 hdotted, rfl⟩)]
  · have hdotted' : ¬ Dotted (rights ws) := fun h' => hdotted ((dotted_lefts_iff ws).2 h')
    rw [Classical.not_not.1 (mt (dotted_of_ofText hlexed) hdotted),
      Classical.not_not.1 (mt (dotted_of_ofText hlexed') hdotted')]

end Java

end Cohesion
