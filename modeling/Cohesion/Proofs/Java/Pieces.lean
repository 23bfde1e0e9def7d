/-
Pieces of two layouts.

The pieces that syntax trees are made of are spelled by tokens.  Here two layouts of the same tokens
are read side by side: a piece of the one and a piece of the other are spelled by the same tokens,
once with what stands between them in the one layout and once in the other, and their nodes are
alike.

Main definitions:
* `Piece.Spelled`, `Piece.Alike` — pieces and the tokens that spell them;
* `Cover` — tokens that are spelled by pieces, one after the other;
* `Layouts` — what is known of the tokens.

Main results:
* `group_alike` — **pieces that are alike make nodes that are alike**;
* `Piece.Alike.inRole` — so they are in any role.
-/
import Cohesion.Java.Phrase
import Cohesion.Proofs.Java.Alike

set_option autoImplicit false

namespace Cohesion.Java

/-! ### Pieces -/

/-- A piece that some tokens spell. -/
structure Piece.Spelled (ts : List Token) (p : Piece) : Prop where
  /-- The same stands before both. -/
  lead : ts.head?.map (·.lead) = some p.lead
  /-- The text. -/
  text : p.text = spell ts

theorem Piece.Spelled.full {ts : List Token} {p : Piece} (h : p.Spelled ts) :
    p.lead.text ++ p.text = spellAll ts := by
  cases ts with
  | nil => cases h.lead
  | cons t ts =>
      have hlead : t.lead = p.lead := Option.some.inj h.lead
      rw [h.text, ← hlead, spell, spellAll, spellAll, List.flatMap_cons, List.append_assoc]

theorem Piece.Spelled.comments {ts : List Token} {p : Piece} (h : p.Spelled ts) (hts : Lexed ts) :
    ∀ c ∈ p.lead.comments, c.IsComment := by
  cases ts with
  | nil => cases h.lead
  | cons t ts =>
      have hlead : t.lead = p.lead := Option.some.inj h.lead
      rw [← hlead]
      exact (hts.wellFormed t List.mem_cons_self).lead.comments

/-- Pieces that twins spell, with nodes that are alike. -/
structure Piece.Alike (ws : List Twin) (p p' : Piece) : Prop where
  /-- The first piece. -/
  left : p.Spelled (lefts ws)
  /-- The second piece. -/
  right : p'.Spelled (rights ws)
  /-- The nodes. -/
  nodes : List.Forall₂ (Node.Alike Node.Respells) p.nodes p'.nodes

/-- Twins that are spelled by pieces, one after the other. -/
inductive Cover : List Twin → List Piece → List Piece → Prop where
  /-- No pieces. -/
  | nil : Cover [] [] []
  /-- One more piece. -/
  | cons {part ws : List Twin} {p p' : Piece} {ps ps' : List Piece} :
      Piece.Alike part p p' → Cover ws ps ps' → Cover (part ++ ws) (p :: ps) (p' :: ps')

/-- Two layouts of some tokens, both lexed. -/
structure Layouts (ws : List Twin) : Prop where
  /-- The first layout. -/
  left : Lexed (lefts ws)
  /-- The second layout. -/
  right : Lexed (rights ws)

theorem Layouts.part {ws part : List Twin} (h : Layouts ws) (hpart : part <:+: ws) :
    Layouts part where
  left := h.left.part (hpart.map _)
  right := h.right.part (hpart.map _)

namespace Cover

variable {ws vs : List Twin} {ps ps' qs qs' : List Piece}

theorem append (h : Cover ws ps ps') (hq : Cover vs qs qs') :
    Cover (ws ++ vs) (ps ++ qs) (ps' ++ qs') := by
  induction h with
  | nil => exact hq
  | cons hp _ ih =>
      rw [List.append_assoc]
      exact .cons hp ih

theorem singleton {p p' : Piece} (h : Piece.Alike ws p p') : Cover ws [p] [p'] := by
  rw [← List.append_nil ws]
  exact .cons h .nil

/-- There is one piece on both sides, or on none. -/
theorem one_or_not (h : Cover ws ps ps') :
    (∃ p p', ps = [p] ∧ ps' = [p'] ∧ Piece.Alike ws p p') ∨
      (∀ p, ps ≠ [p]) ∧ ∀ p', ps' ≠ [p'] := by
  cases h with
  | nil => exact Or.inr ⟨nofun, nofun⟩
  | cons hp hps =>
      cases hps with
      | nil =>
          rw [List.append_nil]
          exact Or.inl ⟨_, _, rfl, rfl, hp⟩
      | cons _ _ => exact Or.inr ⟨by simp, by simp⟩

/-- The pieces are spelled with everything before them. -/
theorem spellAll_eq (h : Cover ws ps ps') :
    (ps.flatMap fun p => p.lead.text ++ p.text) = spellAll (lefts ws) ∧
      (ps'.flatMap fun p => p.lead.text ++ p.text) = spellAll (rights ws) := by
  induction h with
  | nil => exact ⟨rfl, rfl⟩
  | cons hp _ ih =>
      obtain ⟨hleft, hright⟩ := ih
      simp only [List.flatMap_cons, hleft, hright, hp.left.full, hp.right.full]
      simp [spellAll, lefts, rights]

/-- The comments before the pieces. -/
theorem comments (h : Cover ws ps ps') (hws : Layouts ws) :
    (∀ p ∈ ps, ∀ c ∈ p.lead.comments, c.IsComment) ∧
      ∀ p ∈ ps', ∀ c ∈ p.lead.comments, c.IsComment := by
  induction h with
  | nil => exact ⟨by simp, by simp⟩
  | @cons part ws p p' ps ps' hp _ ih =>
      obtain ⟨hleft, hright⟩ := ih (hws.part (List.suffix_append _ _).isInfix)
      have hpart := hws.part (List.prefix_append part ws).isInfix
      exact ⟨List.forall_mem_cons.2 ⟨hp.left.comments hpart.left, hleft⟩,
        List.forall_mem_cons.2 ⟨hp.right.comments hpart.right, hright⟩⟩

/-- The nodes of the pieces, with the comments before them. -/
theorem nodesAlike (h : Cover ws ps ps') (hws : Layouts ws) :
    NodesAlike Node.Respells (ps.flatMap fun p => p.lead.comments ++ p.nodes)
      (ps'.flatMap fun p => p.lead.comments ++ p.nodes) := by
  obtain ⟨hleft, hright⟩ := h.comments hws
  clear hws
  induction h with
  | nil => exact .nil
  | cons hp _ ih =>
      rw [List.forall_mem_cons] at hleft hright
      rw [List.flatMap_cons, List.flatMap_cons]
      exact .append (.append (.of_comments hleft.1 hright.1) (.of_forall₂ hp.nodes))
        (ih hleft.2 hright.2)

end Cover

/-! ### Groups -/

theorem Piece.Spelled.group {ts us : List Token} {p : Piece} {ps : List Piece} (h : p.Spelled ts)
    (hps : (ps.flatMap fun p => p.lead.text ++ p.text) = spellAll us) (kind : Kind) :
    (Piece.group kind p ps).Spelled (ts ++ us) := by
  cases ts with
  | nil => cases h.lead
  | cons t ts =>
      refine ⟨h.lead, ?_⟩
      rw [Piece.group, h.text, hps, List.cons_append, spell, spell, spellAll, spellAll, spellAll,
        List.flatMap_append, List.append_assoc]

/-- **Pieces that are alike make nodes that are alike.** -/
theorem group_alike {ws : List Twin} {p p' : Piece} {ps ps' : List Piece} {kind : Kind}
    (h : Cover ws (p :: ps) (p' :: ps')) (hws : Layouts ws) :
    Piece.Alike ws (.group kind p ps) (.group kind p' ps') := by
  cases h with
  | @cons part ws _ _ _ _ hp hps =>
      obtain ⟨hleft, hright⟩ := hps.spellAll_eq
      have hl : (Piece.group kind p ps).Spelled (lefts (part ++ ws)) := by
        rw [lefts, List.map_append]
        exact hp.left.group hleft kind
      have hr : (Piece.group kind p' ps').Spelled (rights (part ++ ws)) := by
        rw [rights, List.map_append]
        exact hp.right.group hright kind
      refine ⟨hl, hr, .cons (.intro ⟨rfl, rfl, ?_⟩ ?_) .nil⟩
      · rw [hl.text, hr.text]
        exact .intro hws.left hws.right
      · exact (NodesAlike.of_forall₂ hp.nodes).append
          (hps.nodesAlike (hws.part (List.suffix_append part ws).isInfix))

/-! ### Roles -/

/-- A piece in a role. -/
def Piece.inRole (p : Piece) (role : Role) : Piece := { p with role := some role }

/-- **Pieces that are alike are so in any role.** -/
theorem Piece.Alike.inRole {ws : List Twin} {p p' : Piece} (h : Piece.Alike ws p p')
    (role : Role) : Piece.Alike ws (p.inRole role) (p'.inRole role) := by
  -- only the node of the piece, if it is one, knows the role
  obtain ⟨hleft, hright, hnodes⟩ := h
  refine ⟨⟨hleft.lead, hleft.text⟩, ⟨hright.lead, hright.text⟩, ?_⟩
  obtain ⟨_, _, _, _, _, kind, _⟩ := p
  obtain ⟨_, _, _, _, _, kind', _⟩ := p'
  cases kind with
  | none =>
      cases kind' with
      | none => exact .nil
      | some _ => cases hnodes
  | some kind =>
      cases kind' with
      | none => cases hnodes
      | some kind' =>
          cases hnodes with
          | cons hnode _ =>
              have hrelated := hnode.related
              exact .cons (.intro ⟨rfl, hrelated.kind, hrelated.text⟩ hnode.children) .nil

/-- So are pieces one after the other. -/
theorem Cover.inRole {ws : List Twin} {ps ps' : List Piece} (h : Cover ws ps ps') (role : Role) :
    Cover ws (ps.map (·.inRole role)) (ps'.map (·.inRole role)) := by
  induction h with
  | nil => exact .nil
  | cons hp _ ih => exact .cons (hp.inRole role) ih

end Cohesion.Java
