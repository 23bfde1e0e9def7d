/-
Phrases read two layouts alike.

A phrase is run on two lists of tokens that differ only in their lines and in what stands before
the tokens.  It applies to both or to none, it stops at the same token, and the pieces that it gives
are alike.  Every way to put phrases together keeps this, so for a rule of the grammar there is
nothing to show but what it is put together from: instances find the proof.

Main definitions:
* `Phrase.Alike` — phrases that give pieces that are alike;
* `Phrase.Stable` — phrases that read two layouts alike.

Main results:
* `seq_cons`, `choice_cons`, `many_alike`, `grow_alike`, `node_alike`, `as_alike` — **every way to
  put phrases together keeps them alike**.
-/
import Cohesion.Proofs.Java.Pieces

set_option autoImplicit false

namespace Cohesion.Java

/-- What two phrases give for two layouts: they apply to both or to none, and they stop at the same
token.  Their pieces are spelled by the tokens that are read and by some that were read before. -/
inductive Phrase.Outcome (done ws : List Twin) (p p' : Phrase) : Prop where
  /-- They do not apply. -/
  | none : p (lefts ws) = none → p' (rights ws) = none → Outcome done ws p p'
  /-- They apply. -/
  | some {part rest : List Twin} {ps ps' : List Piece} : ws = part ++ rest →
      p (lefts ws) = some (ps, lefts rest) → p' (rights ws) = some (ps', rights rest) →
      Cover (done ++ part) ps ps' → Outcome done ws p p'

/-- Phrases that give for two layouts pieces that are alike. -/
class Phrase.Alike (done : List Twin) (p p' : Phrase) : Prop where
  /-- What they give. -/
  outcome : ∀ ws, Layouts (done ++ ws) → Phrase.Outcome done ws p p'

/-- A phrase that reads two layouts alike. -/
abbrev Phrase.Stable (p : Phrase) : Prop := Phrase.Alike [] p p

namespace Phrase

variable {done : List Twin} {p p' : Phrase} {ps ps' : List Phrase}

instance never_alike : Alike done never never where
  outcome _ _ := .none rfl rfl

theorem given_alike {x x' : Piece} (h : Piece.Alike done x x') :
    Alike done (given x) (given x') where
  outcome ws _ := .some (List.nil_append ws).symm rfl rfl (by
    rw [List.append_nil]
    exact .singleton h)

/-! ### Sequences and choices -/

instance seq_nil : Alike [] (seq []) (seq []) where
  outcome ws _ := .some (List.nil_append ws).symm rfl rfl .nil

instance seq_cons [hp : Alike done p p'] [hps : Alike [] (seq ps) (seq ps')] :
    Alike done (seq (p :: ps)) (seq (p' :: ps')) where
  outcome ws hws := by
    rcases hp.outcome ws hws with ⟨hl, hr⟩ | @⟨part, rest, xs, xs', rfl, hl, hr, hcover⟩
    · exact .none (by simp only [seq, hl]) (by simp only [seq, hr])
    · have hrest : Layouts rest := hws.part ⟨done ++ part, [], by simp⟩
      rcases hps.outcome rest hrest with ⟨hl', hr'⟩ | @⟨more, rest, ys, ys', rfl, hl', hr', hmore⟩
      · exact .none (by simp [seq, hl, hl']) (by simp [seq, hr, hr'])
      · have hall := hcover.append hmore
        rw [List.nil_append, List.append_assoc] at hall
        exact .some (List.append_assoc part more rest).symm (by simp only [seq, hl, hl']; rfl)
          (by simp only [seq, hr, hr']; rfl) hall

instance choice_nil : Alike done (choice []) (choice []) where
  outcome _ _ := .none rfl rfl

instance choice_cons [hp : Alike done p p'] [hps : Alike done (choice ps) (choice ps')] :
    Alike done (choice (p :: ps)) (choice (p' :: ps')) where
  outcome ws hws := by
    rcases hp.outcome ws hws with ⟨hl, hr⟩ | ⟨hsplit, hl, hr, hcover⟩
    · rcases hps.outcome ws hws with ⟨hl', hr'⟩ | ⟨hsplit, hl', hr', hcover⟩
      · exact .none (by simp only [choice, hl, hl']) (by simp only [choice, hr, hr'])
      · exact .some hsplit (by simp only [choice, hl, hl']) (by simp only [choice, hr, hr']) hcover
    · exact .some hsplit (by simp only [choice, hl]) (by simp only [choice, hr]) hcover

instance optional_alike [hp : Stable p] : Stable (optional p) where
  outcome ws hws := by
    rcases hp.outcome ws hws with ⟨hl, hr⟩ | ⟨hsplit, hl, hr, hcover⟩
    · exact .some (List.nil_append ws).symm (by simp [optional, hl]) (by simp [optional, hr]) .nil
    · exact .some hsplit (by simp [optional, hl]) (by simp [optional, hr]) hcover

instance before_alike {next : Phrase} [hp : Alike done p p'] [hnext : Stable next] :
    Alike done (before p next) (before p' next) where
  outcome ws hws := by
    rcases hp.outcome ws hws with ⟨hl, hr⟩ | @⟨part, rest, xs, xs', rfl, hl, hr, hcover⟩
    · exact .none (by simp only [before, hl]) (by simp only [before, hr])
    · have hrest : Layouts rest := hws.part ⟨done ++ part, [], by simp⟩
      rcases hnext.outcome rest hrest with ⟨hl', hr'⟩ | ⟨-, hl', hr', -⟩
      · exact .none (by simp [before, hl, hl']) (by simp [before, hr, hr'])
      · exact .some rfl (by simp [before, hl, hl']) (by simp [before, hr, hr']) hcover

/-! ### Repetition -/

theorem manyUpTo_alike (hp : Stable p) (fuel : Nat) : Stable (manyUpTo p fuel) where
  outcome ws hws := by
    induction fuel generalizing ws with
    | zero => exact .some (List.nil_append ws).symm rfl rfl .nil
    | succ fuel ih =>
        rcases hp.outcome ws hws with ⟨hl, hr⟩ | @⟨part, rest, xs, xs', rfl, hl, hr, hcover⟩
        · exact .some (List.nil_append ws).symm (by simp [manyUpTo, hl]) (by simp [manyUpTo, hr])
            .nil
        · rcases ih rest (hws.part ⟨part, [], by simp⟩) with
            ⟨hl', hr'⟩ | @⟨more, rest, ys, ys', rfl, hl', hr', hmore⟩
          · exact .none (by simp [manyUpTo, hl, hl']) (by simp [manyUpTo, hr, hr'])
          · exact .some (List.append_assoc part more rest).symm (by simp [manyUpTo, hl, hl'])
              (by simp [manyUpTo, hr, hr']) (hcover.append hmore)

theorem length_lefts (ws : List Twin) : (lefts ws).length = (rights ws).length := by
  rw [lefts, rights, List.length_map, List.length_map]

instance many_alike [hp : Stable p] : Stable (many p) where
  outcome ws hws := by
    rcases (manyUpTo_alike hp (lefts ws).length).outcome ws hws with
      ⟨hl, hr⟩ | ⟨hsplit, hl, hr, hcover⟩
    · exact .none hl (by rw [many, ← length_lefts, hr])
    · exact .some hsplit hl (by rw [many, ← length_lefts, hr]) hcover

instance oneOrMore_alike [Stable p] : Stable (oneOrMore p) := by
  delta oneOrMore
  infer_instance

theorem growUpTo_of_ne {step : Piece → Phrase} {x : Piece} {fuel : Nat} {ts rest : List Token}
    {xs : List Piece} (h : step x ts = some (xs, rest)) (hxs : ∀ y, xs ≠ [y]) :
    growUpTo step x (fuel + 1) ts = some ([x], ts) := by
  simp only [growUpTo, h]
  split
  · rename_i y _ heq
    cases heq
    exact absurd rfl (hxs y)
  · rfl

theorem grow_of_ne {step : Piece → Phrase} {ts rest : List Token} {xs : List Piece}
    (h : p ts = some (xs, rest)) (hxs : ∀ y, xs ≠ [y]) : grow p step ts = none := by
  simp only [grow, h]
  split
  · rename_i y _ heq
    cases heq
    exact absurd rfl (hxs y)
  · rfl

section Grow

variable {step : Piece → Phrase}
  (hstep : ∀ ws x x', Piece.Alike ws x x' → Alike ws (step x) (step x'))

include hstep

/-- Pieces that grow stay alike. -/
theorem growUpTo_alike {x x' : Piece} (hx : Piece.Alike done x x') (fuel : Nat) :
    Alike done (growUpTo step x fuel) (growUpTo step x' fuel) := by
  -- the tokens that are read join those that the piece already has
  induction fuel generalizing done x x' with
  | zero => exact given_alike hx
  | succ fuel ih =>
      refine ⟨fun ws hws => ?_⟩
      have hstop : Cover (done ++ []) [x] [x'] := by
        rw [List.append_nil]
        exact .singleton hx
      rcases (hstep done x x' hx).outcome ws hws with
        ⟨hl, hr⟩ | @⟨part, rest, xs, xs', rfl, hl, hr, hcover⟩
      · exact .some (List.nil_append ws).symm (by simp only [growUpTo, hl])
          (by simp only [growUpTo, hr]) hstop
      · rcases hcover.one_or_not with ⟨y, y', rfl, rfl, hy⟩ | ⟨hne, hne'⟩
        · rw [← List.append_assoc] at hws
          rcases (ih hy).outcome rest hws with
            ⟨hl', hr'⟩ | @⟨more, rest, zs, zs', rfl, hl', hr', hmore⟩
          · exact .none (by simp only [growUpTo, hl, hl']) (by simp only [growUpTo, hr, hr'])
          · rw [List.append_assoc] at hmore
            exact .some (List.append_assoc part more rest).symm
              (by simp only [growUpTo, hl, hl']) (by simp only [growUpTo, hr, hr']) hmore
        · exact .some (List.nil_append _).symm (growUpTo_of_ne hl hne) (growUpTo_of_ne hr hne')
            hstop

/-- A piece that is grown by phrases that keep pieces alike. -/
theorem grow_alike (hp : Stable p) : Stable (grow p step) where
  outcome ws hws := by
    rcases hp.outcome ws hws with ⟨hl, hr⟩ | @⟨part, rest, xs, xs', rfl, hl, hr, hcover⟩
    · exact .none (by simp only [grow, hl]) (by simp only [grow, hr])
    · rcases hcover.one_or_not with ⟨y, y', rfl, rfl, hy⟩ | ⟨hne, hne'⟩
      · rcases (growUpTo_alike hstep hy (lefts rest).length).outcome rest hws with
          ⟨hl', hr'⟩ | @⟨more, rest, zs, zs', rfl, hl', hr', hmore⟩
        · exact .none (by simp only [grow, hl, hl'])
            (by simp only [grow, hr, ← length_lefts, hr'])
        · exact .some (List.append_assoc part more rest).symm (by simp only [grow, hl, hl'])
            (by simp only [grow, hr, ← length_lefts, hr']) hmore
      · exact .none (grow_of_ne hl hne) (grow_of_ne hr hne')

end Grow

/-! ### Tokens -/

/-- A test of tokens that layout does not change. -/
class TokenTest (test : Token → Bool) : Prop where
  /-- Twins pass the test together. -/
  test_eq : ∀ w : Twin, test w.left = test w.right

theorem ofToken_alike (w : Twin) : Piece.Alike [w] (.ofToken w.left) (.ofToken w.right) where
  left := ⟨rfl, (List.append_nil _).symm⟩
  right := ⟨rfl, (List.append_nil _).symm⟩
  nodes := .nil

instance tokenWhere_alike {test : Token → Bool} [htest : TokenTest test] :
    Stable (tokenWhere test) where
  outcome ws _ := by
    cases ws with
    | nil => exact .none rfl rfl
    | cons w ws =>
        -- twins pass the test together
        have htwins := htest.test_eq w
        cases hw : test w.left with
        | false =>
            rw [hw] at htwins
            exact .none (by simp [tokenWhere, lefts, hw]) (by simp [tokenWhere, rights, ← htwins])
        | true =>
            rw [hw] at htwins
            exact .some (show w :: ws = [w] ++ ws from rfl) (by simp [tokenWhere, lefts, hw])
              (by simp [tokenWhere, rights, ← htwins]) (.singleton (ofToken_alike w))

instance isSym_test (text : String) :
    TokenTest fun t => t.kind == .symbol && t.text == text.toList :=
  ⟨fun w => by rw [w.kind, w.text]⟩

instance isWord_test (text : String) :
    TokenTest fun t => t.kind == .word && t.text == text.toList :=
  ⟨fun w => by rw [w.kind, w.text]⟩

instance isWordIn_test (texts : List String) :
    TokenTest fun t => t.kind == .word && texts.any (t.text == ·.toList) :=
  ⟨fun w => by rw [w.kind, w.text]⟩

instance sym_alike (text : String) : Stable (sym text) := tokenWhere_alike

instance word_alike (text : String) : Stable (word text) := tokenWhere_alike

instance wordIn_alike (texts : List String) : Stable (wordIn texts) := tokenWhere_alike

instance separated_alike {separator : String} [Stable p] : Stable (separated p separator) := by
  delta separated
  infer_instance

instance commaList_alike [Stable p] : Stable (commaList p) := by
  delta commaList
  infer_instance

/-! ### Nodes and roles -/

instance node_alike {kind : Kind} [hp : Alike done p p'] :
    Alike done (node kind p) (node kind p') where
  outcome ws hws := by
    rcases hp.outcome ws hws with ⟨hl, hr⟩ | @⟨part, rest, xs, xs', rfl, hl, hr, hcover⟩
    · exact .none (by simp only [node, hl]) (by simp only [node, hr])
    · have hpart : Layouts (done ++ part) := hws.part ⟨[], rest, by simp⟩
      generalize hread : done ++ part = read at hpart hcover
      cases hcover with
      | nil => exact .none (by simp only [node, hl]) (by simp only [node, hr])
      | cons hx hxs =>
          have hgroup := @group_alike _ _ _ _ _ kind (.cons hx hxs) hpart
          rw [← hread] at hgroup
          exact .some rfl (by simp only [node, hl]) (by simp only [node, hr])
            (.singleton hgroup)

instance as_alike {role : Role} [hp : Alike done p p'] :
    Alike done (as role p) (as role p') where
  outcome ws hws := by
    rcases hp.outcome ws hws with ⟨hl, hr⟩ | ⟨hsplit, hl, hr, hcover⟩
    · exact .none (by simp only [as, hl]; rfl) (by simp only [as, hr]; rfl)
    · exact .some hsplit (by simp only [as, hl]; rfl) (by simp only [as, hr]; rfl)
        (hcover.inRole role)

end Phrase

end Cohesion.Java
