/-
Trees that are alike have units that are alike.

What a unit says is told from the kinds and roles of nodes, the text of names and the names of
types, and all of this is the same in trees that are alike.  Comments do not count: they play no
role, and no kind that is looked for is theirs.

Main definitions:
* `Surroundings.Alike` — where classes are found, apart from the file.

Main results:
* `Node.Alike.method`, `Node.Alike.unit` — methods and classes;
* `programUnits_alike` — **trees that are alike have units that are alike**.
-/
import Cohesion.Proofs.Java.Alike

set_option autoImplicit false

namespace Cohesion.Java

variable {tidy : Prop}

/-! ### What a node says -/

theorem childText_eq (n : Node) (role : Role) :
    n.childText role = ((n.child? role).map (·.string)).getD "" := by
  rw [Node.childText]
  cases n.child? role <;> rfl

namespace Node.Alike

variable {n n' : Node} (h : n.Alike (Node.Agree tidy) n')

include h

theorem child? (role : Role) :
    Option.Rel (fun c c' => c.Alike (Node.Agree tidy) c' ∧ c.role = some role) (n.child? role)
      (n'.child? role) := by
  simpa [Node.child?] using h.children.find? (discerns_role role)

theorem childrenAs (role : Role) :
    List.Forall₂ (fun c c' => c.Alike (Node.Agree tidy) c' ∧ c.role = some role) (n.childrenAs role)
      (n'.childrenAs role) := by
  simpa [Node.childrenAs] using h.children.filter (discerns_role role)

theorem name_eq : (n.child? .name).map (·.string) = (n'.child? .name).map (·.string) :=
  map_eq_of_rel (h.child? .name) fun c c' hc => by
    rw [Node.string, Node.string, hc.1.related.name hc.2]

theorem childText_name : n.childText .name = n'.childText .name := by
  rw [childText_eq, childText_eq, h.name_eq]

theorem declaredType_eq : n.declaredType? = n'.declaredType? :=
  bind_eq_of_rel (h.child? .type) fun _ _ hc => hc.1.related.type (Or.inl hc.2)

/-! ### Bodies -/

theorem localTypes_eq : n.localTypes = n'.localTypes := by
  rw [Node.localTypes, Node.localTypes, ← h.related.kind]
  split
  · rw [List.flatMap_def, List.flatMap_def, h.declaredType_eq]
    congr 1
    exact map_eq_of_forall₂ (h.childrenAs .declarator) fun d d' hd => by rw [hd.1.childText_name]
  · have hname := h.child? .name
    rw [h.declaredType_eq]
    generalize n.child? .name = name, n'.child? .name = name' at hname
    cases hname with
    | none => rfl
    | @some c c' hc =>
        have htext : c.string = c'.string := by
          rw [Node.string, Node.string, hc.1.related.name hc.2]
        dsimp only
        rw [htext]
  · rfl

/-- An invocation is one in both trees. -/
theorem invocation? : Option.Rel (Invocation.Alike tidy) n.invocation? n'.invocation? := by
  have hobject := h.child? .object
  rw [Node.invocation?, Node.invocation?, ← h.related.kind]
  generalize n.child? .object = object, n'.child? .object = object' at hobject
  split
  · refine .some ⟨h.childText_name, fun htidy => ?_⟩
    cases hobject with
    | none => rfl
    | some hc => exact hc.1.related.object htidy hc.2
  · exact .none

end Node.Alike

theorem scope_eq (n : Node) :
    n.scope = if n.kind == .classDeclaration then [] else n :: scopeOfAll n.children := by
  obtain ⟨_, _, _, _, _, _⟩ := n
  rw [Node.scope]

theorem scope_of_isComment {c : Node} (h : c.IsComment) : c.scope = [c] := by
  rw [scope_eq, h.kind, h.children, scopeOfAll]
  rfl

mutual

/-- The nodes of two bodies are alike. -/
theorem Node.Alike.scope {n n' : Node} (h : n.Alike (Node.Agree tidy) n') :
    NodesAlike (Node.Agree tidy) n.scope n'.scope := by
  match h with
  | .intro hagree hchildren =>
      rw [scope_eq, scope_eq, ← hagree.kind]
      split
      · exact .nil
      · exact .cons (.intro hagree hchildren) (scopeOfAll_alike hchildren)

theorem scopeOfAll_alike {ns ns' : List Node} (h : NodesAlike (Node.Agree tidy) ns ns') :
    NodesAlike (Node.Agree tidy) (scopeOfAll ns) (scopeOfAll ns') := by
  match h with
  | .nil => exact .nil
  | .cons hn hns => exact (Node.Alike.scope hn).append (scopeOfAll_alike hns)
  | .left hc hns =>
      rw [scopeOfAll, scope_of_isComment hc]
      exact .left hc (scopeOfAll_alike hns)
  | .right hc hns =>
      rw [scopeOfAll, scope_of_isComment hc]
      exact .right hc (scopeOfAll_alike hns)

end

namespace NodesAlike

/-- The invocations among nodes. -/
theorem invocations {ns ns' : List Node} (h : NodesAlike (Node.Agree tidy) ns ns') :
    List.Forall₂ (Invocation.Alike tidy) (ns.filterMap Node.invocation?)
      (ns'.filterMap Node.invocation?) := by
  have hcomment : ∀ {c : Node}, c.IsComment → c.invocation? = none := by
    intro c hc
    rw [Node.invocation?, hc.kind]
    rfl
  match h with
  | .nil => exact .nil
  | @cons _ n n' _ _ hn hns =>
      have hinvocation := hn.invocation?
      rw [List.filterMap_cons, List.filterMap_cons]
      generalize n.invocation? = i, n'.invocation? = i' at hinvocation
      cases hinvocation with
      | none => exact invocations hns
      | some hi => exact .cons hi (invocations hns)
  | .left hc hns =>
      rw [List.filterMap_cons_none (hcomment hc)]
      exact invocations hns
  | .right hc hns =>
      rw [List.filterMap_cons_none (hcomment hc)]
      exact invocations hns

end NodesAlike

/-! ### Members -/

/-- The name of a parameter. -/
def Node.parameterName? (n : Node) : Option String :=
  let declarators := n.children.filter (·.kind == .variableDeclarator)
  Option.map (·.string) <|
    if n.kind == .spreadParameter then declarators.getLast?.elim (n.child? .name) (·.child? .name)
    else n.child? .name

/-- The name of the type of a parameter. -/
def Node.parameterTypeName? (n : Node) : Option String :=
  if n.kind == .spreadParameter then
    ((n.child? .type).or (n.children.find? isTypeNode)).bind Node.typeName?
  else n.declaredType?

theorem parameterType_eq_elim (n : Node) :
    n.parameterType = n.parameterName?.elim [] (typedName · n.parameterTypeName?) := by
  rw [Node.parameterType, Node.parameterName?, Node.parameterTypeName?]
  cases n.kind == .spreadParameter with
  | false =>
      simp only [Bool.false_eq_true, if_false]
      cases n.child? .name <;> rfl
  | true =>
      simp only [if_true]
      cases (n.children.filter (·.kind == .variableDeclarator)).getLast? with
      | none =>
          simp only [Option.elim_none]
          cases n.child? .name <;> rfl
      | some declarator =>
          simp only [Option.elim_some]
          cases declarator.child? .name <;> rfl

namespace Node.Alike

variable {n n' : Node} (h : n.Alike (Node.Agree tidy) n')

include h

theorem bodyScope : NodesAlike (Node.Agree tidy) n.bodyScope n'.bodyScope := by
  have hbody := h.child? .body
  rw [Node.bodyScope, Node.bodyScope]
  generalize n.child? .body = body, n'.child? .body = body' at hbody
  cases hbody with
  | none => exact .nil
  | some hc => exact hc.1.scope

theorem members : NodesAlike (Node.Agree tidy) n.members n'.members := by
  have hbody := h.child? .body
  rw [Node.members, Node.members]
  generalize n.child? .body = body, n'.child? .body = body' at hbody
  cases hbody with
  | none => exact .nil
  | some hc => exact hc.1.children

theorem parameters :
    List.Forall₂ (fun p p' => p.Alike (Node.Agree tidy) p' ∧
      (p.kind == .formalParameter || p.kind == .spreadParameter) = true) n.parameters
      n'.parameters := by
  have hlist := h.child? .parameters
  rw [Node.parameters, Node.parameters]
  generalize n.child? .parameters = list, n'.child? .parameters = list' at hlist
  cases hlist with
  | none => exact .nil
  | some hc => exact hc.1.children.filter discerns_parameter

theorem parameterName_eq : n.parameterName? = n'.parameterName? := by
  rw [Node.parameterName?, Node.parameterName?, ← h.related.kind]
  split
  · have hdeclarators := h.children.filter (discerns_kind .variableDeclarator (by decide))
    have hlast := rel_getLast? hdeclarators
    generalize (n.children.filter (·.kind == .variableDeclarator)).getLast? = declarator,
      (n'.children.filter (·.kind == .variableDeclarator)).getLast? = declarator' at hlast
    cases hlast with
    | none => exact h.name_eq
    | some hd => exact hd.1.name_eq
  · exact h.name_eq

/-- Types that are found by their role, or else by their kind. -/
theorem parameterTypeNode_eq :
    ((n.child? .type).or (n.children.find? isTypeNode)).bind Node.typeName? =
      ((n'.child? .type).or (n'.children.find? isTypeNode)).bind Node.typeName? := by
  have hrole := h.child? .type
  have hkind := h.children.find? discerns_typeNode
  generalize n.child? .type = type, n'.child? .type = type' at hrole
  cases hrole with
  | none =>
      exact bind_eq_of_rel hkind fun t t' ht =>
        ht.1.related.typeName (by rw [namesType, ht.2, Bool.true_or])
  | some ht => exact ht.1.related.type (Or.inl ht.2)

theorem parameterTypeName_eq : n.parameterTypeName? = n'.parameterTypeName? := by
  rw [Node.parameterTypeName?, Node.parameterTypeName?, ← h.related.kind, h.parameterTypeNode_eq,
    h.declaredType_eq]

theorem parameterType_eq : n.parameterType = n'.parameterType := by
  rw [parameterType_eq_elim, parameterType_eq_elim, h.parameterName_eq, h.parameterTypeName_eq]

theorem fields_eq : n.fields = n'.fields := by
  rw [Node.fields, Node.fields, ← h.related.kind, h.declaredType_eq]
  split
  · exact map_eq_of_forall₂ (h.childrenAs .declarator) fun d d' hd => by rw [hd.1.childText_name]
  · rfl

/-- The methods that two nodes declare. -/
theorem method : Method.Alike tidy n.method n'.method where
  name := h.childText_name
  paramCount := congrArg Int.ofNat h.parameters.length_eq
  locals := by
    rw [Node.method, Node.method]
    dsimp only
    rw [List.flatMap_def, List.flatMap_def,
      map_eq_of_forall₂ h.parameters fun p p' hp => hp.1.parameterType_eq]
    congr 1
    refine h.bodyScope.flatMap_eq (fun _ _ hn => hn.localTypes_eq) fun c hc => ?_
    rw [Node.localTypes, hc.kind]
  invocations := h.bodyScope.invocations

/-- The name of the superclass, in tidy sources. -/
theorem superclassName_eq (htidy : tidy) : n.superclassName? = n'.superclassName? :=
  bind_eq_of_rel (h.child? .superclass) fun _ _ hc => hc.1.related.superclass htidy hc.2

end Node.Alike

/-! ### Classes -/

/-- Surroundings that differ only in the file, and unless the sources are tidy in the package. -/
structure Surroundings.Alike (tidy : Prop) (s s' : Surroundings) : Prop where
  /-- The package. -/
  package : tidy → s.package = s'.package
  /-- The enclosing types. -/
  enclosing : s.enclosing = s'.enclosing

theorem Surroundings.Alike.qualified {s s' : Surroundings} (h : s.Alike tidy s') (htidy : tidy)
    (name : String) : s.qualified name = s'.qualified name := by
  rw [Surroundings.qualified, Surroundings.qualified, h.package htidy, h.enclosing]

theorem Surroundings.Alike.inside {s s' : Surroundings} (h : s.Alike tidy s') (name : String) :
    (s.inside name).Alike tidy (s'.inside name) where
  package := h.package
  enclosing := by rw [Surroundings.inside, Surroundings.inside, h.enclosing]

/-- The units of two classes. -/
theorem Node.Alike.unit {n n' : Node} (h : n.Alike (Node.Agree tidy) n') {s s' : Surroundings}
    (hs : s.Alike tidy s') : CodeUnit.Alike tidy (n.unit s) (n'.unit s') where
  name := h.childText_name
  fields := h.members.flatMap_eq (fun _ _ hn => hn.fields_eq) fun c hc => by
    rw [Node.fields, hc.kind]
    rfl
  methods := by
    have hmethods := h.members.filter (discerns_kind .methodDeclaration (by decide))
    rw [Node.unit, Node.unit, List.forall₂_map_left_iff, List.forall₂_map_right_iff]
    exact hmethods.imp fun _ _ hm => hm.1.method
  qualified htidy := by
    rw [Node.unit, Node.unit, h.childText_name, hs.qualified htidy]
  package htidy := hs.package htidy
  superclass htidy := h.superclassName_eq htidy

theorem units_eq (s : Surroundings) (n : Node) :
    n.units s =
      if n.kind == .classDeclaration then
        n.unit s :: unitsOfBody (s.inside (n.childText .name)) n.children
      else if isContainer n.kind then unitsOfBody (s.inside (n.childText .name)) n.children
      else if isBody n.kind then unitsOfAll s n.children
      else [] := by
  obtain ⟨_, _, _, _, _, _⟩ := n
  rw [Node.units]

theorem units_of_isComment {c : Node} (h : c.IsComment) (s : Surroundings) : c.units s = [] := by
  rw [units_eq, h.kind]
  rfl

theorem unitsOfBody_cons (s : Surroundings) (n : Node) (ns : List Node) :
    unitsOfBody s (n :: ns) =
      if n.role == some .body then unitsOfAll s n.children else unitsOfBody s ns := by
  obtain ⟨_, _, _, _, _, _⟩ := n
  rw [unitsOfBody]

mutual

/-- The units of two trees. -/
theorem Node.Alike.units {n n' : Node} (h : n.Alike (Node.Agree tidy) n') {s s' : Surroundings}
    (hs : s.Alike tidy s') : List.Forall₂ (CodeUnit.Alike tidy) (n.units s) (n'.units s') := by
  match h with
  | .intro hagree hchildren =>
      have hnode : n.Alike (Node.Agree tidy) n' := .intro hagree hchildren
      have hinside := hs.inside (n.childText .name)
      rw [units_eq, units_eq, ← hagree.kind, ← hnode.childText_name]
      split
      · exact .cons (hnode.unit hs) (unitsOfBody_alike hchildren hinside)
      · split
        · exact unitsOfBody_alike hchildren hinside
        · split
          · exact unitsOfAll_alike hchildren hs
          · exact .nil

theorem unitsOfAll_alike {ns ns' : List Node} (h : NodesAlike (Node.Agree tidy) ns ns')
    {s s' : Surroundings} (hs : s.Alike tidy s') :
    List.Forall₂ (CodeUnit.Alike tidy) (unitsOfAll s ns) (unitsOfAll s' ns') := by
  match h with
  | .nil => exact .nil
  | .cons hn hns =>
      rw [unitsOfAll, unitsOfAll]
      exact List.rel_append (hn.units hs) (unitsOfAll_alike hns hs)
  | .left hc hns =>
      rw [unitsOfAll, units_of_isComment hc, List.nil_append]
      exact unitsOfAll_alike hns hs
  | .right hc hns =>
      rw [unitsOfAll, units_of_isComment hc, List.nil_append]
      exact unitsOfAll_alike hns hs

theorem unitsOfBody_alike {ns ns' : List Node} (h : NodesAlike (Node.Agree tidy) ns ns')
    {s s' : Surroundings} (hs : s.Alike tidy s') :
    List.Forall₂ (CodeUnit.Alike tidy) (unitsOfBody s ns) (unitsOfBody s' ns') := by
  match h with
  | .nil => exact .nil
  | .cons (.intro hagree hchildren) hns =>
      rw [unitsOfBody_cons, unitsOfBody_cons, ← hagree.role]
      split
      · exact unitsOfAll_alike hchildren hs
      · exact unitsOfBody_alike hns hs
  | .left hc hns =>
      rw [unitsOfBody_cons, hc.role]
      exact unitsOfBody_alike hns hs
  | .right hc hns =>
      rw [unitsOfBody_cons, hc.role]
      exact unitsOfBody_alike hns hs

end

/-- The name of the package, in tidy sources. -/
theorem package_eq {program program' : Node}
    (h : NodesAlike (Node.Agree tidy) program.children program'.children) (htidy : tidy) :
    program.package? = program'.package? := by
  have hdeclarations := h.filter (discerns_kind .packageDeclaration (by decide))
  have hnames := map_eq_of_forall₂ hdeclarations fun d d' hd =>
    hd.1.related.package htidy (beq_iff_eq.1 hd.2)
  have hfirst := congrArg (fun names => (names.filterMap id).head?) hnames
  simp only [List.filterMap_map, Function.comp_def, id, ← List.map_filterMap,
    List.head?_map] at hfirst
  exact hfirst

/-- **Trees that are alike have units that are alike.** -/
theorem programUnits_alike {program program' : Node}
    (h : NodesAlike (Node.Agree tidy) program.children program'.children)
    (file file' : Option Path) :
    List.Forall₂ (CodeUnit.Alike tidy) (program.programUnits file)
      (program'.programUnits file') :=
  unitsOfAll_alike h ⟨package_eq h, rfl⟩

end Cohesion.Java
