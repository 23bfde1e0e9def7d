/-
The grammar reads two layouts alike.

Every rule of the grammar is put together from others in ways that keep phrases alike.  So two texts
with the same tokens have trees that are alike.

Main definitions:
* `Rules.Alike` — rules that read two layouts alike;
* `Source.spelling` — the tokens without what stands before them.

Main results:
* `Rules.level_alike` — the rules of every level read two layouts alike;
* `Node.ofText_alike` — **texts with the same tokens have trees that are alike**.
-/
import Cohesion.Java.Grammar.Program
import Cohesion.Proofs.Java.Phrases

set_option autoImplicit false

namespace Cohesion.Java

open Phrase

/-- Rules that read two layouts alike. -/
class Rules.Alike (r : Rules) : Prop where
  type : Stable r.type
  annotation : Stable r.annotation
  expression : Stable r.expression
  labelExpression : Stable r.labelExpression
  elements : Stable r.elements
  recordPattern : Stable r.recordPattern
  statement : Stable r.statement
  block : Stable r.block
  classBody : Stable r.classBody
  typeDeclaration : Stable r.typeDeclaration

/-! ### Names -/

instance nameToken_test : TokenTest nameToken :=
  ⟨fun w => by rw [nameToken, nameToken, w.kind, w.text]⟩

instance memberNameToken_test : TokenTest fun t =>
    t.kind == .word && !(["new", "class", "super", "this"].any (t.text == ·.toList)) :=
  ⟨fun w => by rw [w.kind, w.text]⟩

instance identifier_alike : Stable identifier := by
  delta identifier
  infer_instance

instance memberName_alike : Stable memberName := by
  delta memberName
  infer_instance

instance typeIdentifier_alike : Stable typeIdentifier := by
  delta typeIdentifier
  infer_instance

instance qualifiedName_alike : Stable qualifiedName :=
  grow_alike (fun _ _ _ hx => by
    have hgiven := given_alike hx
    infer_instance) identifier_alike

variable {r : Rules} [h : r.Alike]

instance : Stable r.type := h.type

instance : Stable r.annotation := h.annotation

instance : Stable r.expression := h.expression

instance : Stable r.labelExpression := h.labelExpression

instance : Stable r.elements := h.elements

instance : Stable r.recordPattern := h.recordPattern

instance : Stable r.statement := h.statement

instance : Stable r.block := h.block

instance : Stable r.classBody := h.classBody

instance : Stable r.typeDeclaration := h.typeDeclaration

/-! ### Types -/

instance primitiveType_alike : Stable primitiveType := by
  delta primitiveType
  infer_instance

instance wildcard_alike : Stable (wildcard r) := by
  delta wildcard
  infer_instance

instance typeArguments_alike : Stable (typeArguments r) := by
  delta typeArguments
  infer_instance

instance dimensions_alike : Stable (dimensions r) := by
  delta dimensions
  infer_instance

instance classType_alike : Stable (classType r) :=
  grow_alike (fun _ _ _ hx => by
    have hgiven := given_alike hx
    infer_instance) typeIdentifier_alike

instance elementType_alike : Stable (elementType r) := by
  delta elementType
  infer_instance

instance plainType_alike : Stable (plainType r) :=
  grow_alike (fun _ _ _ hx => by
    have hgiven := given_alike hx
    infer_instance) elementType_alike

instance annotatedType_alike : Stable (annotatedType r) := by
  delta annotatedType
  infer_instance

/-! ### Annotations -/

instance typeList_alike : Stable (typeList r) := by
  delta typeList
  infer_instance

instance typeParameter_alike : Stable (typeParameter r) := by
  delta typeParameter
  infer_instance

instance typeParameters_alike : Stable (typeParameters r) := by
  delta typeParameters
  infer_instance

instance elementValue_alike : Stable (elementValue r) := by
  delta elementValue
  infer_instance

instance elements_alike : Stable (elements r) := by
  delta elements
  infer_instance

instance annotation_alike : Stable <| annotation r := by
  delta annotation
  infer_instance

instance modifier_alike : Stable (modifier r) := by
  delta modifier
  infer_instance

instance modifiers_alike : Stable (modifiers r) := by
  delta modifiers
  infer_instance

/-! ### Operands -/

instance parenthesized_alike : Stable (parenthesized r) := by
  delta parenthesized
  infer_instance

instance arguments_alike : Stable (arguments r) := by
  delta arguments
  infer_instance

instance isLiteral_test : TokenTest (·.kind == .literal) := ⟨fun w => by rw [w.kind]⟩

instance literal_alike : Stable literal := by
  delta literal
  infer_instance

instance currentObject_alike : Stable currentObject := by
  delta currentObject
  infer_instance

instance parentObject_alike : Stable parentObject := by
  delta parentObject
  infer_instance

instance creation_alike : Stable (seq (creation r)) := by
  delta creation
  dsimp only
  infer_instance

instance typeOperand_alike : Stable (typeOperand r) := by
  delta typeOperand
  infer_instance

instance primaryBase_alike : Stable (primaryBase r) := by
  delta primaryBase
  infer_instance

theorem primaryStep_alike {done : List Twin} {x x' : Piece} (hx : Piece.Alike done x x') :
    Alike done (primaryStep r x) (primaryStep r x') := by
  have hgiven := given_alike hx
  have hdotted (rest : List Phrase) [Stable (seq rest)] :
      Alike done (node .other (seq (given x :: sym "." :: rest)))
        (node .other (seq (given x' :: sym "." :: rest))) := by
    infer_instance
  delta primaryStep
  infer_instance

instance primary_alike : Stable (primary r) :=
  grow_alike (fun _ _ _ hx => primaryStep_alike hx) primaryBase_alike

/-! ### Parameters -/

instance declaredName_alike : Stable (declaredName r) := by
  delta declaredName
  infer_instance

instance receiverParameter_alike : Stable (receiverParameter r) := by
  delta receiverParameter
  infer_instance

instance spreadParameter_alike : Stable (spreadParameter r) := by
  delta spreadParameter
  infer_instance

instance formalParameter_alike : Stable (formalParameter r) := by
  delta formalParameter
  infer_instance

instance formalParameters_alike : Stable (formalParameters r) := by
  delta formalParameters
  infer_instance

/-! ### Expressions -/

instance functionLiteral_alike : Stable (functionLiteral r) := by
  delta functionLiteral
  infer_instance

instance startsOperand_test : TokenTest startsOperand :=
  ⟨fun w => by rw [startsOperand, startsOperand, w.kind, w.text]⟩

instance castType_alike : Stable (castType r) := by
  delta castType
  infer_instance

instance operator_alike : Stable operator :=
  @tokenWhere_alike _ ⟨fun w => by rw [w.kind, w.text]⟩

instance recordPattern_alike : Stable (recordPattern r) := by
  delta recordPattern
  infer_instance

instance pattern_alike : Stable (pattern r) := by
  delta pattern
  infer_instance

instance switchLabel_alike : Stable (switchLabel r) := by
  delta switchLabel
  infer_instance

instance switchBlock_alike : Stable (switchBlock r) := by
  delta switchBlock
  infer_instance

instance switchExpression_alike : Stable (switchExpression r) := by
  delta switchExpression
  infer_instance

section

variable {functions : Phrase} [Stable functions]

instance operand_alike : Stable (operand r functions) := by
  delta operand
  infer_instance

instance continuation_alike : Stable (continuation r functions) := by
  delta continuation
  infer_instance

instance expressionWith_alike : Stable (expressionWith r functions) := by
  delta expressionWith
  infer_instance

end

instance expression_alike : Stable (expression r) := by
  delta expression
  infer_instance

instance labelExpression_alike : Stable (labelExpression r) := by
  delta labelExpression
  infer_instance

/-! ### Statements -/

instance variableDeclarator_alike : Stable (variableDeclarator r) := by
  delta variableDeclarator
  infer_instance

instance variableDeclarators_alike : Stable (variableDeclarators r) := by
  delta variableDeclarators
  infer_instance

instance localVariables_alike : Stable (localVariables r) := by
  delta localVariables
  infer_instance

instance block_alike : Stable (block r) := by
  delta block
  infer_instance

instance enhancedFor_alike : Stable (enhancedFor r) := by
  delta enhancedFor
  infer_instance

instance countingFor_alike : Stable (countingFor r) := by
  delta countingFor
  infer_instance

instance resource_alike : Stable (resource r) := by
  delta resource
  infer_instance

instance tryStatement_alike : Stable (tryStatement r) := by
  delta tryStatement
  infer_instance

instance keywordStatement_alike : Stable (keywordStatement r) := by
  delta keywordStatement
  infer_instance

instance statement_alike : Stable (statement r) := by
  delta statement
  infer_instance

/-! ### Members -/

instance throwsClause_alike : Stable (throwsClause r) := by
  delta throwsClause
  infer_instance

instance method_alike : Stable (method r) := by
  delta method
  infer_instance

instance constructor_alike : Stable (constructor r) := by
  delta constructor
  infer_instance

instance fields_alike {kind : Kind} : Stable (fields r kind) := by
  delta fields
  infer_instance

instance member_alike : Stable (member r) := by
  delta member
  infer_instance

instance classBody_alike : Stable (classBody r) := by
  delta classBody
  infer_instance

instance interfaceBody_alike : Stable (interfaceBody r) := by
  delta interfaceBody
  infer_instance

instance annotationTypeBody_alike : Stable (annotationTypeBody r) := by
  delta annotationTypeBody
  infer_instance

instance enumConstant_alike : Stable (enumConstant r) := by
  delta enumConstant
  infer_instance

instance enumBody_alike : Stable (enumBody r) := by
  delta enumBody
  infer_instance

/-! ### Types -/

instance implementsClause_alike : Stable (implementsClause r) := by
  delta implementsClause
  infer_instance

instance permitsClause_alike : Stable (permitsClause r) := by
  delta permitsClause
  infer_instance

instance classDeclaration_alike : Stable (classDeclaration r) := by
  delta classDeclaration
  infer_instance

instance interfaceDeclaration_alike : Stable (interfaceDeclaration r) := by
  delta interfaceDeclaration
  infer_instance

instance enumDeclaration_alike : Stable (enumDeclaration r) := by
  delta enumDeclaration
  infer_instance

instance recordDeclaration_alike : Stable (recordDeclaration r) := by
  delta recordDeclaration
  infer_instance

instance annotationTypeDeclaration_alike : Stable (annotationTypeDeclaration r) := by
  delta annotationTypeDeclaration
  infer_instance

instance typeDeclaration_alike : Stable (typeDeclaration r) := by
  delta typeDeclaration
  infer_instance

/-! ### Sources -/

instance packageDeclaration_alike : Stable (packageDeclaration r) := by
  delta packageDeclaration
  infer_instance

instance isWordToken_test : TokenTest (·.kind == .word) := ⟨fun w => by rw [w.kind]⟩

instance importDeclaration_alike : Stable importDeclaration := by
  delta importDeclaration
  infer_instance

instance moduleDeclaration_alike : Stable (moduleDeclaration r) := by
  delta moduleDeclaration
  infer_instance

instance topLevel_alike : Stable (topLevel r) := by
  delta topLevel
  infer_instance

/-- The rules of the next level read two layouts alike. -/
theorem Rules.next_alike : r.next.Alike where
  type := annotatedType_alike
  annotation := annotation_alike
  expression := expression_alike
  labelExpression := labelExpression_alike
  elements := elements_alike
  recordPattern := recordPattern_alike
  statement := statement_alike
  block := block_alike
  classBody := classBody_alike
  typeDeclaration := typeDeclaration_alike

/-- The rules of every level read two layouts alike. -/
theorem Rules.level_alike (n : Nat) : (Rules.level n).Alike := by
  induction n with
  | zero =>
      exact ⟨never_alike, never_alike, never_alike, never_alike, never_alike, never_alike,
        never_alike, never_alike, never_alike, never_alike⟩
  | succ n ih => exact Rules.next_alike

/-! ### Texts -/

/-- Two layouts of a source have trees that are alike. -/
theorem ofSource?_alike {ws : List Twin} {trailing trailing' : Lead} (hws : Layouts ws)
    (h : trailing.WellFormed) (h' : trailing'.WellFormed) :
    Option.Rel (fun program program' => NodesAlike Node.Respells program.children program'.children)
      (Node.ofSource? ⟨lefts ws, trailing⟩) (Node.ofSource? ⟨rights ws, trailing'⟩) := by
  have hrules : (Rules.level (4 * (lefts ws).length + 4)).Alike := Rules.level_alike _
  have hall : Stable (.many (topLevel (Rules.level (4 * (lefts ws).length + 4)))) := inferInstance
  rw [Node.ofSource?, Node.ofSource?]
  dsimp only
  rw [← Phrase.length_lefts]
  rcases hall.outcome ws hws with ⟨hl, hr⟩ | @⟨part, rest, ps, ps', rfl, hl, hr, hcover⟩
  · rw [hl, hr]
    exact .none
  · rw [hl, hr]
    cases rest with
    | cons w rest => exact .none
    | nil =>
        rw [List.append_nil] at hws
        exact .some ((hcover.nodesAlike hws).append (.of_comments h.comments h'.comments))

/-- The tokens of a source without what stands before them. -/
def Source.spelling (s : Source) : List (TokenKind × List Char) :=
  s.tokens.map fun t => (t.kind, t.text)

/-- Lists of tokens of one spelling are made of twins. -/
theorem exists_twins {ts ts' : List Token}
    (h : (ts.map fun t => (t.kind, t.text)) = ts'.map fun t => (t.kind, t.text)) :
    ∃ ws, lefts ws = ts ∧ rights ws = ts' := by
  induction ts generalizing ts' with
  | nil =>
      obtain rfl := List.map_eq_nil_iff.1 h.symm
      exact ⟨[], rfl, rfl⟩
  | cons t ts ih =>
      cases ts' with
      | nil => cases h
      | cons t' ts' =>
          rw [List.map_cons, List.map_cons, List.cons.injEq, Prod.mk.injEq] at h
          obtain ⟨⟨hkind, htext⟩, hrest⟩ := h
          obtain ⟨ws, rfl, rfl⟩ := ih hrest
          exact ⟨⟨t, t', hkind, htext⟩ :: ws, rfl, rfl⟩

/-- **Texts with the same tokens have trees that are alike.** -/
theorem Node.ofText_alike {text text' : List Char}
    (h : (Source.ofText? text).map Source.spelling = (Source.ofText? text').map Source.spelling) :
    NodesAlike Respells (ofText text).children (ofText text').children := by
  rw [ofText, ofText, ofText?, ofText?]
  cases hs : Source.ofText? text with
  | none =>
      rw [hs] at h
      rw [Option.map_eq_none_iff.1 h.symm]
      exact .nil
  | some s =>
      rw [hs, Option.map_some, eq_comm, Option.map_eq_some_iff] at h
      obtain ⟨s', hs', hsame⟩ := h
      obtain ⟨hlexed, htrailing⟩ := lexed_of_ofText? hs
      obtain ⟨hlexed', htrailing'⟩ := lexed_of_ofText? hs'
      obtain ⟨tokens, trailing⟩ := s
      obtain ⟨tokens', trailing'⟩ := s'
      obtain ⟨ws, rfl, rfl⟩ := exists_twins hsame.symm
      have hprograms := ofSource?_alike ⟨hlexed, hlexed'⟩ htrailing htrailing'
      rw [hs', Option.bind_some, Option.bind_some]
      generalize Node.ofSource? ⟨lefts ws, trailing⟩ = program,
        Node.ofSource? ⟨rights ws, trailing'⟩ = program' at hprograms
      cases hprograms with
      | none => exact .nil
      | some halike => exact halike

end Cohesion.Java
