/-
Phrases whose nodes satisfy a condition.

What is to be shown of the nodes that a phrase makes is shown of the phrases that it is put together
from: instances find the proof.  A node that satisfies the condition whatever is in it needs no more
than its kind.  The tokens are those of a source, so before a piece there are only comments.

Main definitions:
* `Phrase.Builds` — phrases whose nodes satisfy a condition;
* `Kind.Fits` — kinds of nodes that satisfy it whatever is in them.

Main results:
* `seq_cons_builds`, `choice_cons_builds`, `many_builds` — **every way to put phrases together keeps
  a condition of the nodes**;
* `node_builds_of`, `as_builds_of` — what it takes for new nodes and for roles.
-/
import Cohesion.Proofs.Java.Phrases

set_option autoImplicit false

namespace Cohesion.Java

/-! ### Phrases -/

/-- A piece with comments before it whose node, if it is one, satisfies a condition. -/
structure Piece.Holds (P : Node → Prop) (x : Piece) : Prop where
  /-- What stands before it. -/
  comments : ∀ c ∈ x.lead.comments, c.IsComment
  /-- The node. -/
  nodes : ∀ n ∈ x.nodes, P n

/-- A condition of comments and of the nodes of pieces holds of all that becomes of the pieces. -/
theorem Piece.holds_of_mem {P : Node → Prop} (hcomment : ∀ c : Node, c.IsComment → P c)
    {xs : List Piece} (h : ∀ x ∈ xs, x.Holds P) {c : Node}
    (hc : c ∈ xs.flatMap fun x => x.lead.comments ++ x.nodes) : P c := by
  obtain ⟨x, hx, hmem⟩ := List.mem_flatMap.1 hc
  rcases List.mem_append.1 hmem with hlead | hnode
  · exact hcomment c ((h x hx).comments c hlead)
  · exact (h x hx).nodes c hnode

/-- Phrases whose nodes satisfy a condition. -/
class Phrase.Builds (P : Node → Prop) (p : Phrase) : Prop where
  /-- What they give for tokens of a source. -/
  pieces : ∀ {ts rest : List Token} {xs : List Piece}, Lexed ts → p ts = some (xs, rest) →
    Lexed rest ∧ ∀ x ∈ xs, x.Holds P

/-- Every list of tokens is a layout of itself. -/
theorem exists_same_twins (ts : List Token) : ∃ ws, lefts ws = ts ∧ rights ws = ts := by
  refine ⟨ts.map fun t => ⟨t, t, rfl, rfl⟩, ?_, ?_⟩
  · rw [lefts, List.map_map]
    exact List.map_id ts
  · rw [rights, List.map_map]
    exact List.map_id ts

/-- The pieces of a phrase that reads two layouts alike have comments before them. -/
theorem Phrase.Stable.builds {p : Phrase} (h : Stable p) : Builds (fun _ => True) p where
  pieces {ts rest xs} hts hp := by
    obtain ⟨ws, rfl, hrights⟩ := exists_same_twins ts
    have hws : Layouts ws := ⟨hts, by rw [hrights]; exact hts⟩
    rcases h.outcome ws hws with ⟨hl, -⟩ | @⟨part, rest', xs', xs'', hsplit, hl, -, hcover⟩
    · rw [hl] at hp
      cases hp
    · rw [hl] at hp
      cases hp
      have hparts : Layouts (part ++ rest') := hsplit ▸ hws
      refine ⟨(hparts.part (List.suffix_append _ _).isInfix).left, fun x hx => ⟨?_, by simp⟩⟩
      exact (hcover.comments (hparts.part (List.prefix_append _ _).isInfix)).1 x hx

namespace Phrase

variable {P Q : Node → Prop} {p : Phrase} {ps : List Phrase}

theorem Builds.imp (h : Builds P p) (hPQ : ∀ n, P n → Q n) : Builds Q p where
  pieces hts hp := by
    obtain ⟨hrest, hxs⟩ := h.pieces hts hp
    exact ⟨hrest, fun x hx => ⟨(hxs x hx).comments, fun n hn => hPQ n ((hxs x hx).nodes n hn)⟩⟩

instance never_builds : Builds P never where
  pieces _ hp := by cases hp

@[simp]
theorem nodes_ofToken (t : Token) : (Piece.ofToken t).nodes = [] := rfl

instance tokenWhere_builds {test : Token → Bool} : Builds P (tokenWhere test) where
  pieces {ts rest xs} hts hp := by
    cases ts with
    | nil => cases hp
    | cons t ts =>
        rw [tokenWhere, Option.ite_none_right_eq_some] at hp
        obtain ⟨-, heq⟩ := hp
        cases heq
        refine ⟨hts.part (List.suffix_cons t _).isInfix, List.forall_mem_singleton.2 ⟨?_, ?_⟩⟩
        · exact (hts.wellFormed t List.mem_cons_self).lead.comments
        · simp

instance sym_builds (text : String) : Builds P (sym text) := tokenWhere_builds

instance word_builds (text : String) : Builds P (word text) := tokenWhere_builds

instance seq_nil_builds : Builds P (seq []) where
  pieces hts hp := by
    cases hp
    exact ⟨hts, by simp⟩

theorem seq_eq_some {ts rest : List Token} {xs : List Piece}
    (h : seq (p :: ps) ts = some (xs, rest)) : ∃ ys zs middle,
      p ts = some (ys, middle) ∧ seq ps middle = some (zs, rest) ∧ xs = ys ++ zs := by
  simp only [seq] at h
  split at h
  · cases h
  · rename_i ys middle hp
    obtain ⟨⟨zs, rest'⟩, hps, heq⟩ := Option.map_eq_some_iff.1 h
    cases heq
    exact ⟨ys, zs, middle, hp, hps, rfl⟩

instance seq_cons_builds [hp : Builds P p] [hps : Builds P (seq ps)] :
    Builds P (seq (p :: ps)) where
  pieces hts hseq := by
    obtain ⟨ys, zs, middle, hfirst, hmore, rfl⟩ := seq_eq_some hseq
    obtain ⟨hmiddle, hys⟩ := hp.pieces hts hfirst
    obtain ⟨hrest, hzs⟩ := hps.pieces hmiddle hmore
    exact ⟨hrest, List.forall_mem_append.2 ⟨hys, hzs⟩⟩

instance choice_nil_builds : Builds P (choice []) := never_builds

instance choice_cons_builds [hp : Builds P p] [hps : Builds P (choice ps)] :
    Builds P (choice (p :: ps)) where
  pieces hts hchoice := by
    simp only [choice] at hchoice
    split at hchoice
    · exact hps.pieces hts hchoice
    · rename_i hfirst
      cases hchoice
      exact hp.pieces hts hfirst

instance optional_builds [hp : Builds P p] : Builds P (optional p) where
  pieces {ts rest xs} hts hoptional := by
    simp only [optional, Option.some.injEq] at hoptional
    cases hfirst : p ts with
    | none =>
        rw [hfirst] at hoptional
        cases hoptional
        exact ⟨hts, by simp⟩
    | some result =>
        rw [hfirst] at hoptional
        cases hoptional
        exact hp.pieces hts hfirst

theorem manyUpTo_builds (hp : Builds P p) (fuel : Nat) : Builds P (manyUpTo p fuel) where
  pieces {ts rest xs} hts hmany := by
    induction fuel generalizing ts rest xs with
    | zero =>
        cases hmany
        exact ⟨hts, by simp⟩
    | succ fuel ih =>
        simp only [manyUpTo] at hmany
        split at hmany
        · cases hmany
          exact ⟨hts, by simp⟩
        · rename_i ys middle hfirst
          obtain ⟨⟨zs, rest'⟩, hmore, heq⟩ := Option.map_eq_some_iff.1 hmany
          cases heq
          obtain ⟨hmiddle, hys⟩ := hp.pieces hts hfirst
          obtain ⟨hrest, hzs⟩ := ih hmiddle hmore
          exact ⟨hrest, List.forall_mem_append.2 ⟨hys, hzs⟩⟩

instance many_builds [hp : Builds P p] : Builds P (many p) where
  pieces {ts _ _} hts hmany := (manyUpTo_builds hp ts.length).pieces hts hmany

instance separated_builds {separator : String} [Builds P p] : Builds P (separated p separator) := by
  delta separated
  infer_instance

instance commaList_builds [Builds P p] : Builds P (commaList p) := by
  delta commaList
  infer_instance

/-! ### Nodes -/

theorem node_eq_some {kind : Kind} {ts rest : List Token} {xs : List Piece}
    (h : node kind p ts = some (xs, rest)) :
    ∃ y ys, p ts = some (y :: ys, rest) ∧ xs = [.group kind y ys] := by
  simp only [node] at h
  split at h
  · rename_i y ys rest' hp
    cases h
    exact ⟨y, ys, hp, rfl⟩
  · cases h

/-- The node that a group of pieces becomes. -/
def groupNode (kind : Kind) (p : Piece) (ps : List Piece) : Node :=
  ⟨none, kind, (Piece.group kind p ps).text, (Piece.group kind p ps).startLine,
    (Piece.group kind p ps).endLine, (Piece.group kind p ps).children⟩

theorem mem_nodes_group {kind : Kind} {y : Piece} {ys : List Piece} {n : Node} :
    n ∈ (Piece.group kind y ys).nodes ↔ n = groupNode kind y ys := by
  rw [Piece.nodes, Piece.group, List.mem_singleton]
  rfl

/-- What the children of a node are among. -/
theorem children_group {kind : Kind} {y : Piece} {ys : List Piece} :
    (groupNode kind y ys).children.Sublist
      ((y :: ys).flatMap fun x => x.lead.comments ++ x.nodes) := by
  rw [groupNode, Piece.group, List.flatMap_cons]
  exact (List.sublist_append_right _ _).append (List.Sublist.refl _)

/-- A phrase that makes a node satisfies what every node of the kind made of its pieces does. -/
theorem node_builds_of {kind : Kind} [hp : Builds P p]
    (hnode : ∀ y ys, (∀ x ∈ y :: ys, x.Holds P) → Q (groupNode kind y ys)) :
    Builds Q (node kind p) where
  pieces hts h := by
    obtain ⟨y, ys, hfirst, rfl⟩ := node_eq_some h
    obtain ⟨hrest, hxs⟩ := hp.pieces hts hfirst
    refine ⟨hrest, List.forall_mem_singleton.2 ⟨(hxs y List.mem_cons_self).comments, ?_⟩⟩
    intro n hn
    rw [mem_nodes_group.1 hn]
    exact hnode y ys hxs

end Phrase

open Phrase

/-- A truth value that is true, to be found by instances. -/
class IsTrue (b : Bool) : Prop where
  /-- It is true. -/
  eq_true : b = true

instance : IsTrue true := ⟨rfl⟩

/-- A kind of nodes that satisfy a condition whatever is in them, if they play no role. -/
class Kind.Fits (P : Node → Prop) (kind : Kind) : Prop where
  /-- They satisfy it. -/
  holds : ∀ n : Node, n.kind = kind → n.role = none → P n

instance node_builds {P : Node → Prop} {kind : Kind} {p : Phrase} [hkind : kind.Fits P]
    [hp : Stable (node kind p)] : Builds P (node kind p) where
  pieces hts h := by
    obtain ⟨hrest, hxs⟩ := hp.builds.pieces hts h
    refine ⟨hrest, fun x hx => ⟨(hxs x hx).comments, fun n hn => ?_⟩⟩
    obtain ⟨y, ys, -, rfl⟩ := node_eq_some h
    rw [List.mem_singleton.1 hx] at hn
    rw [mem_nodes_group.1 hn]
    exact hkind.holds _ rfl rfl

/-! ### Roles -/

theorem mem_nodes_inRole {x : Piece} {role : Role} {n : Node} (h : n ∈ (x.inRole role).nodes) :
    ∃ m ∈ x.nodes, n = { m with role := some role } := by
  simp only [Piece.nodes, Piece.inRole] at h ⊢
  split at h
  · cases h
  · rename_i kind hkind
    rw [List.mem_singleton] at h
    exact ⟨_, List.mem_singleton_self _, h⟩

theorem as_builds_of {P Q : Node → Prop} {role : Role} {p : Phrase} (hp : Builds P p)
    (hrole : ∀ n : Node, P n → Q { n with role := some role }) : Builds Q (as role p) where
  pieces hts h := by
    obtain ⟨⟨xs, rest⟩, hfirst, heq⟩ := Option.map_eq_some_iff.1 h
    cases heq
    obtain ⟨hrest, hxs⟩ := hp.pieces hts hfirst
    refine ⟨hrest, List.forall_mem_map.2 fun x hx => ⟨(hxs x hx).comments, fun n hn => ?_⟩⟩
    obtain ⟨m, hm, rfl⟩ := mem_nodes_inRole hn
    exact hrole m ((hxs x hx).nodes m hm)

end Cohesion.Java
