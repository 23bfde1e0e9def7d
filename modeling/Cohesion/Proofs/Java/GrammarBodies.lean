/-
The grammar puts bodies in place.

Whatever a source says, the grammar makes its tree so that classes are found by going down through
types and their bodies.  What is inside other nodes does not matter for this, so for most rules it
is enough to know what kind of node they make.

Main definitions:
* `Node.Outside`, `Node.IsTypeBody` — what the pieces of a type are;
* `Rules.Builds` — rules that build nodes about whose bodies all is known.

Main results:
* `Rules.level_builds` — the rules of every level build such nodes;
* `Node.hasBodies_ofText` — **the tree of every text has its bodies in place**.
-/
import Cohesion.Proofs.Java.Bodies
import Cohesion.Proofs.Java.Building
import Cohesion.Proofs.Java.Grammar

set_option autoImplicit false

namespace Cohesion.Java

/-- What is known about the bodies of a node does not depend on its role. -/
theorem Node.Sound.inRole {n : Node} (h : n.Sound) (role : Option Role) :
    Node.Sound { n with role := role } where
  shaped :=
    ⟨fun htype => ⟨(h.shaped.type htype).kind, (h.shaped.type htype).only,
      (h.shaped.type htype).once⟩, h.shaped.method⟩
  inside hopens := by
    have hchildren := Node.hasBodies_iff.1 (h.inside hopens)
    exact Node.hasBodies_iff.2 hchildren

/-- A kind of nodes about whose bodies nothing is to be known. -/
@[reducible] def Kind.isClosed (kind : Kind) : Bool :=
  match kind with
  | .classDeclaration | .interfaceDeclaration | .enumDeclaration | .recordDeclaration | .classBody
  | .interfaceBody | .enumBody | .enumBodyDeclarations | .methodDeclaration => false
  | _ => true

/-- A role other than that of the body. -/
@[reducible] def Role.isOutside (role : Role) : Bool :=
  match role with
  | .body => false
  | _ => true

theorem opens_of_isClosed {kind : Kind} (h : kind.isClosed = true) : opens kind = false := by
  cases kind <;> first | rfl | cases h

theorem sound_of_isClosed {n : Node} (h : n.kind.isClosed = true) : n.Sound := by
  have hopens := opens_of_isClosed h
  have htype : isType n.kind = false := (Bool.or_eq_false_iff.1 hopens).1
  refine ⟨⟨fun hkind => ?_, fun hkind => ?_⟩, fun hkind => ?_⟩
  · rw [htype] at hkind
    cases hkind
  · rw [hkind] at h
    cases h
  · rw [hopens] at hkind
    cases hkind

theorem isClosed_of_isComment {c : Node} (h : c.IsComment) : c.kind.isClosed = true := by
  rw [h.kind]

theorem sound_of_isComment (c : Node) (h : c.IsComment) : c.Sound :=
  sound_of_isClosed (isClosed_of_isComment h)

open Phrase

instance fits_sound {kind : Kind} [h : IsTrue kind.isClosed] : kind.Fits Node.Sound where
  holds _ hkind _ := sound_of_isClosed (hkind ▸ h.eq_true)

/-! ### Methods -/

/-- A body is a block. -/
def Node.BlockBody (n : Node) : Prop := n.role = some .body → n.kind = .block

instance fits_blockBody {kind : Kind} : kind.Fits Node.BlockBody where
  holds _ _ hrole hbody := by
    rw [hrole] at hbody
    cases hbody

theorem ne_body_of_isOutside {role : Role} (h : role.isOutside = true) :
    some role ≠ some Role.body := by
  rintro ⟨⟩
  cases h

instance as_blockBody {role : Role} {p : Phrase} [hrole : IsTrue role.isOutside]
    [hp : Stable p] : Builds Node.BlockBody (as role p) :=
  as_builds_of hp.builds fun _ _ hbody => absurd hbody (ne_body_of_isOutside hrole.eq_true)

/-! ### Parts of types -/

/-- A node in a type that is not its body and leads nowhere. -/
structure Node.Outside (n : Node) : Prop where
  /-- It is not the body. -/
  role : n.role ≠ some .body
  /-- It is no type and no body. -/
  closed : n.kind.isClosed = true

/-- A node in a type that is its body. -/
structure Node.IsTypeBody (n : Node) : Prop where
  /-- Its role. -/
  role : n.role = some .body
  /-- Its kind. -/
  kind : isBody n.kind = true
  /-- What is in it. -/
  sound : n.Sound

instance fits_outside {kind : Kind} [h : IsTrue kind.isClosed] : kind.Fits Node.Outside where
  holds n hkind hrole := ⟨by rw [hrole]; exact nofun, hkind ▸ h.eq_true⟩

instance as_outside {role : Role} {p : Phrase} [hrole : IsTrue role.isOutside]
    [hp : Builds Node.Outside p] : Builds Node.Outside (as role p) :=
  as_builds_of hp fun _ hn => ⟨ne_body_of_isOutside hrole.eq_true, hn.closed⟩

theorem outside_of_isComment {c : Node} (h : c.IsComment) : c.Outside :=
  ⟨by rw [h.role]; exact nofun, isClosed_of_isComment h⟩

/-- The pieces of a type: the last one is the body. -/
inductive BodyLast : List Piece → Prop where
  /-- The body. -/
  | body {x : Piece} {n : Node} :
      (∀ c ∈ x.lead.comments, c.IsComment) → x.nodes = [n] → n.IsTypeBody → BodyLast [x]
  /-- What stands before it. -/
  | cons {x : Piece} {xs : List Piece} : x.Holds Node.Outside → BodyLast xs → BodyLast (x :: xs)

theorem BodyLast.append {xs ys : List Piece} (hxs : ∀ x ∈ xs, x.Holds Node.Outside)
    (hys : BodyLast ys) : BodyLast (xs ++ ys) := by
  induction xs with
  | nil => exact hys
  | cons x xs ih =>
      rw [List.forall_mem_cons] at hxs
      exact .cons hxs.1 (ih hxs.2)

/-- The nodes of a type: all but one lead nowhere. -/
theorem BodyLast.nodes {xs : List Piece} (h : BodyLast xs) :
    (∀ n ∈ xs.flatMap fun x => x.lead.comments ++ x.nodes, n.Outside ∨ n.IsTypeBody) ∧
      ((xs.flatMap fun x => x.lead.comments ++ x.nodes).filter
        (·.role == some .body)).length ≤ 1 := by
  have hnone : ∀ ns : List Node, (∀ n ∈ ns, n.Outside) → ns.filter (·.role == some .body) = [] :=
    fun ns hns => List.filter_eq_nil_iff.2 fun n hn => by simpa using (hns n hn).role
  induction h with
  | @body x n hcomments hnodes hbody =>
      have houtside : ∀ c ∈ x.lead.comments, c.Outside :=
        fun c hc => outside_of_isComment (hcomments c hc)
      rw [List.flatMap_cons, List.flatMap_nil, List.append_nil, hnodes, List.filter_append,
        hnone _ houtside]
      refine ⟨fun m hm => ?_, ?_⟩
      · rcases List.mem_append.1 hm with hm | hm
        · exact Or.inl (houtside m hm)
        · exact Or.inr (List.mem_singleton.1 hm ▸ hbody)
      · rw [List.nil_append]
        exact List.length_filter_le _ [n]
  | @cons x xs hx _ ih =>
      have houtside : ∀ n ∈ x.lead.comments ++ x.nodes, n.Outside :=
        List.forall_mem_append.2 ⟨fun c hc => outside_of_isComment (hx.comments c hc), hx.nodes⟩
      rw [List.flatMap_cons, List.filter_append, hnone _ houtside]
      exact ⟨List.forall_mem_append.2 ⟨fun n hn => Or.inl (houtside n hn), ih.1⟩, ih.2⟩

theorem BodyLast.comments {xs : List Piece} (h : BodyLast xs) :
    ∀ x ∈ xs, ∀ c ∈ x.lead.comments, c.IsComment := by
  induction h with
  | body hcomments _ _ => exact List.forall_mem_singleton.2 hcomments
  | cons hx _ ih => exact List.forall_mem_cons.2 ⟨hx.comments, ih⟩

/-- Phrases whose pieces make a type. -/
class Phrase.BuildsType (p : Phrase) : Prop where
  /-- What they give for tokens of a source. -/
  pieces : ∀ {ts rest : List Token} {xs : List Piece}, Lexed ts → p ts = some (xs, rest) →
    Lexed rest ∧ BodyLast xs

instance seq_buildsType {p : Phrase} {ps : List Phrase} [hp : Builds Node.Outside p]
    [hps : BuildsType (seq ps)] : BuildsType (seq (p :: ps)) where
  pieces hts hseq := by
    obtain ⟨ys, zs, middle, hfirst, hmore, rfl⟩ := seq_eq_some hseq
    obtain ⟨hmiddle, hys⟩ := hp.pieces hts hfirst
    obtain ⟨hrest, hzs⟩ := hps.pieces hmiddle hmore
    exact ⟨hrest, .append hys hzs⟩

/-- A body of sound nodes is sound. -/
theorem sound_body {kind : Kind} (hkind : isBody kind = true) {y : Piece} {ys : List Piece}
    (h : ∀ x ∈ y :: ys, x.Holds Node.Sound) : (groupNode kind y ys).Sound := by
  refine ⟨⟨fun htype => ?_, fun hmethod => ?_⟩, fun _ => Node.hasBodies_iff.2 fun c hc => ?_⟩
  · have hclosed := isType_of_isBody hkind
    rw [show kind = (groupNode kind y ys).kind from rfl, htype] at hclosed
    cases hclosed
  · rw [show kind = .methodDeclaration from hmethod] at hkind
    cases hkind
  · exact Piece.holds_of_mem sound_of_isComment h (children_group.subset hc)

/-- A type is sound if what is in its body is. -/
theorem sound_type {kind : Kind} (hkind : isType kind = true) {y : Piece} {ys : List Piece}
    (h : BodyLast (y :: ys)) : (groupNode kind y ys).Sound := by
  obtain ⟨hparts, honce⟩ := h.nodes
  have hchildren : ∀ c ∈ (groupNode kind y ys).children, c.Outside ∨ c.IsTypeBody :=
    fun c hc => hparts c (children_group.subset hc)
  refine ⟨⟨fun _ => ⟨fun c hc hrole => ?_, fun c hc hopens => ?_, ?_⟩, fun hmethod => ?_⟩,
    fun _ => Node.hasBodies_iff.2 fun c hc => ?_⟩
  · rcases hchildren c hc with houtside | hbody
    · exact absurd hrole houtside.role
    · exact hbody.kind
  · rcases hchildren c hc with houtside | hbody
    · rw [opens_of_isClosed houtside.closed] at hopens
      cases hopens
    · exact hbody.role
  · exact (children_group.filter _).length_le.trans honce
  · rw [show kind = .methodDeclaration from hmethod] at hkind
    cases hkind
  · rcases hchildren c hc with houtside | hbody
    · exact sound_of_isClosed houtside.closed
    · exact hbody.sound

theorem node_buildsType {kind : Kind} {p : Phrase} (hkind : isBody kind = true)
    [hp : Builds Node.Sound p] : BuildsType (seq [as .body (node kind p)]) where
  pieces hts hseq := by
    obtain ⟨ys, zs, middle, hfirst, hmore, rfl⟩ := seq_eq_some hseq
    cases hmore
    obtain ⟨⟨_, _⟩, hnode, heq⟩ := Option.map_eq_some_iff.1 hfirst
    cases heq
    obtain ⟨y, ys, hpieces, rfl⟩ := node_eq_some hnode
    obtain ⟨hrest, hxs⟩ := hp.pieces hts hpieces
    exact ⟨hrest, .body (hxs y List.mem_cons_self).comments rfl
      ⟨rfl, hkind, (sound_body hkind hxs).inRole (some .body)⟩⟩

/-! ### Rules -/

/-- Rules that build nodes about whose bodies all is known. -/
class Rules.Builds (r : Rules) : Prop where
  annotation : Phrase.Builds Node.BlockBody r.annotation
  block : Phrase.Builds (fun n => n.kind = .block) r.block
  statement : Phrase.Builds Node.Sound r.statement
  typeDeclaration : Phrase.Builds Node.Sound r.typeDeclaration

section

variable {r : Rules} [halike : r.Alike] [h : r.Builds]

instance block_sound : Builds Node.Sound r.block :=
  h.block.imp fun _ hn => sound_of_isClosed (by rw [hn])

instance statement_sound : Builds Node.Sound r.statement := h.statement

instance typeDeclaration_sound : Builds Node.Sound r.typeDeclaration := h.typeDeclaration

instance block_blockBody : Builds Node.BlockBody (as .body r.block) :=
  as_builds_of h.block fun _ hn _ => hn

/-! ### Members -/

instance modifiers_builds {P : Node → Prop} [Kind.Fits P .other] : Builds P (modifiers r) := by
  delta modifiers
  infer_instance

instance dimensions_builds {P : Node → Prop} [Kind.Fits P .other] : Builds P (dimensions r) := by
  delta dimensions
  infer_instance

instance typeParameters_builds {P : Node → Prop} [Kind.Fits P .other] :
    Builds P (typeParameters r) := by
  delta typeParameters
  infer_instance

instance throwsClause_builds {P : Node → Prop} [Kind.Fits P .other] :
    Builds P (throwsClause r) := by
  delta throwsClause
  infer_instance

instance annotation_blockBody : Builds Node.BlockBody r.annotation := h.annotation

theorem sound_method {y : Piece} {ys : List Piece}
    (h : ∀ x ∈ y :: ys, x.Holds Node.BlockBody) : (groupNode .methodDeclaration y ys).Sound := by
  have hcomment : ∀ c : Node, c.IsComment → c.BlockBody := by
    intro c hc hrole
    rw [hc.role] at hrole
    cases hrole
  exact ⟨⟨nofun, fun _ c hc => Piece.holds_of_mem hcomment h (children_group.subset hc)⟩, nofun⟩

instance method_sound : Builds Node.Sound (method r) := by
  delta method
  exact node_builds_of fun _ _ => sound_method

instance fields_sound {kind : Kind} [IsTrue kind.isClosed] :
    Builds Node.Sound (fields r kind) := by
  delta fields
  infer_instance

instance constructor_sound : Builds Node.Sound (constructor r) := by
  delta constructor
  infer_instance

instance member_sound : Builds Node.Sound (member r) := by
  delta member
  infer_instance

instance enumConstant_sound : Builds Node.Sound (enumConstant r) := by
  delta enumConstant
  infer_instance

/-! ### Types -/

instance classBody_buildsType : BuildsType (seq [as .body (classBody r)]) := by
  delta classBody
  exact node_buildsType rfl

instance interfaceBody_buildsType : BuildsType (seq [as .body (interfaceBody r)]) := by
  delta interfaceBody
  exact node_buildsType rfl

instance enumDeclarations_sound :
    Builds Node.Sound (node .enumBodyDeclarations (seq [sym ";", many (member r)])) :=
  node_builds_of (P := Node.Sound) fun _ _ => sound_body rfl

instance enumBody_buildsType : BuildsType (seq [as .body (enumBody r)]) := by
  delta enumBody
  exact node_buildsType rfl

instance identifier_outside : Builds Node.Outside identifier := by
  delta identifier
  infer_instance

instance formalParameters_outside : Builds Node.Outside (formalParameters r) := by
  delta formalParameters
  infer_instance

instance implementsClause_outside : Builds Node.Outside (implementsClause r) := by
  delta implementsClause
  infer_instance

instance permitsClause_outside : Builds Node.Outside (permitsClause r) := by
  delta permitsClause
  infer_instance

theorem typeNode_sound {kind : Kind} (hkind : isType kind = true) {p : Phrase}
    [hp : BuildsType p] : Builds Node.Sound (node kind p) where
  pieces hts h := by
    obtain ⟨y, ys, hpieces, rfl⟩ := node_eq_some h
    obtain ⟨hrest, hbody⟩ := hp.pieces hts hpieces
    refine ⟨hrest, List.forall_mem_singleton.2 ⟨hbody.comments y List.mem_cons_self, ?_⟩⟩
    intro n hn
    rw [mem_nodes_group.1 hn]
    exact sound_type hkind hbody

instance classDeclaration_sound : Builds Node.Sound (classDeclaration r) := by
  delta classDeclaration
  exact typeNode_sound rfl

instance interfaceDeclaration_sound : Builds Node.Sound (interfaceDeclaration r) := by
  delta interfaceDeclaration
  exact typeNode_sound rfl

instance enumDeclaration_sound : Builds Node.Sound (enumDeclaration r) := by
  delta enumDeclaration
  exact typeNode_sound rfl

instance recordDeclaration_sound : Builds Node.Sound (recordDeclaration r) := by
  delta recordDeclaration
  exact typeNode_sound rfl

instance annotationTypeDeclaration_sound : Builds Node.Sound (annotationTypeDeclaration r) := by
  delta annotationTypeDeclaration
  infer_instance

/-! ### Levels -/

instance enhancedFor_sound : Builds Node.Sound (enhancedFor r) := by
  delta enhancedFor
  infer_instance

instance countingFor_sound : Builds Node.Sound (countingFor r) := by
  delta countingFor
  infer_instance

instance tryStatement_sound : Builds Node.Sound (tryStatement r) := by
  delta tryStatement
  infer_instance

instance switchExpression_sound : Builds Node.Sound (switchExpression r) := by
  delta switchExpression
  infer_instance

instance localVariables_sound : Builds Node.Sound (localVariables r) := by
  delta localVariables
  infer_instance

instance annotation_next : Builds Node.BlockBody <| annotation r := by
  delta annotation
  infer_instance

instance block_next : Builds (fun n => n.kind = .block) (block r) := by
  have hfits : Kind.Fits (fun n => n.kind = .block) .block := ⟨fun _ hn _ => hn⟩
  delta block
  infer_instance

instance statement_next : Builds Node.Sound (statement r) := by
  delta statement
  infer_instance

instance typeDeclaration_next : Builds Node.Sound (typeDeclaration r) := by
  delta typeDeclaration
  infer_instance

/-- The rules of the next level build nodes about whose bodies all is known. -/
theorem Rules.next_builds : r.next.Builds where
  annotation := annotation_next
  block := block_next
  statement := statement_next
  typeDeclaration := typeDeclaration_next

end

/-- **The rules of every level build nodes about whose bodies all is known.** -/
theorem Rules.level_builds (n : Nat) : (Rules.level n).Builds := by
  induction n with
  | zero => exact ⟨never_builds, never_builds, never_builds, never_builds⟩
  | succ n ih =>
      have halike : (Rules.level n).Alike := Rules.level_alike n
      exact Rules.next_builds

/-! ### Sources -/

instance packageDeclaration_sound {r : Rules} [r.Alike] :
    Builds Node.Sound (packageDeclaration r) := by
  have hstable : Stable (packageDeclaration r) := packageDeclaration_alike
  delta packageDeclaration at hstable ⊢
  infer_instance

instance importDeclaration_sound : Builds Node.Sound importDeclaration := by
  delta importDeclaration
  infer_instance

instance moduleDeclaration_sound {r : Rules} [r.Alike] :
    Builds Node.Sound (moduleDeclaration r) := by
  have hstable : Stable (moduleDeclaration r) := moduleDeclaration_alike
  delta moduleDeclaration at hstable ⊢
  infer_instance

instance topLevel_sound {r : Rules} [r.Alike] [r.Builds] :
    Builds Node.Sound (topLevel r) := by
  delta topLevel
  infer_instance

/-- The tree of every program has its bodies in place. -/
theorem Node.hasBodies_of_ofText? {text : List Char} {program : Node}
    (h : Node.ofText? text = some program) : program.HasBodies := by
  obtain ⟨s, hs, hprogram⟩ := Option.bind_eq_some_iff.1 h
  obtain ⟨hlexed, htrailing⟩ := lexed_of_ofText? hs
  have halike : (Rules.level (4 * s.tokens.length + 4)).Alike := Rules.level_alike _
  have hbuilds : (Rules.level (4 * s.tokens.length + 4)).Builds := Rules.level_builds _
  have hpieces : Builds Node.Sound (many (topLevel (Rules.level (4 * s.tokens.length + 4)))) :=
    inferInstance
  simp only [Node.ofSource?] at hprogram
  split at hprogram
  · rename_i pieces hmany
    cases hprogram
    obtain ⟨-, hsound⟩ := hpieces.pieces hlexed hmany
    refine hasBodies_iff.2 (List.forall_mem_append.2 ⟨fun c hc => ?_, fun c hc => ?_⟩)
    · exact Piece.holds_of_mem sound_of_isComment hsound hc
    · exact sound_of_isComment c (htrailing.comments c hc)
  · cases hprogram

/-- **The tree of every text has its bodies in place.** -/
theorem Node.hasBodies_ofText (text : List Char) : (Node.ofText text).HasBodies := by
  rw [ofText]
  cases h : Node.ofText? text with
  | none => exact hasBodies_iff.2 (List.forall_mem_nil _)
  | some program => exact hasBodies_of_ofText? h

end Cohesion.Java
