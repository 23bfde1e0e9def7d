/-
What a class declares with which types.

A unit knows the names of types only.  Here the types themselves are kept: for the superclass, the
fields, the parameters and the local variables of a class the nodes by which their types are
written.  A name with dots in front of it is written by a node that has all its parts, but of these
a unit knows only the last one.

Main definitions:
* `ClassSite`, `ClassSite.Among` — a class and what is around it, among the nodes of a source;
* `Node.superclassType?`, `ClassSite.fieldVariables`, `Node.bindings` — what is declared with which
  types;
* `Node.writtenNames`, `Node.Writes` — the parts of the name by which a type is written, and types
  written by the qualified name of a unit.

Main results:
* `exists_among_of_mem_programUnits` — every unit of a program is the unit of a class in it;
* `ClassSite.qualified_unit` — the unit is known by the name of the class in its surroundings;
* `ClassSite.fieldType?_unit`, `Node.typeOf?_method` — what the unit knows of these declarations;
* `Node.Writes.typeName?_eq` — **of a qualified name the simple name is known**.
-/
import Cohesion.Java.Classes

set_option autoImplicit false

namespace Cohesion.Java

/-! ### Classes in a source -/

/-- A class and what is around it. -/
structure ClassSite where
  /-- Where the class stands. -/
  surroundings : Surroundings
  /-- The class. -/
  node : Node

namespace ClassSite

/-- The unit of a class. -/
def unit (c : ClassSite) : CodeUnit := c.node.unit c.surroundings

/-- A class is one of some nodes, or it is in a type or a body that is one of them. -/
inductive Among : ClassSite → Surroundings → List Node → Prop where
  /-- The class is one of the nodes. -/
  | self {s : Surroundings} {ns : List Node} {n : Node} :
      n ∈ ns → n.kind = .classDeclaration → Among ⟨s, n⟩ s ns
  /-- The class is in the body of a type. -/
  | member {c : ClassSite} {s : Surroundings} {ns : List Node} {n body : Node} :
      n ∈ ns → (n.kind = .classDeclaration ∨ isContainer n.kind = true) →
        n.child? .body = some body → c.Among (s.inside (n.childText .name)) body.children →
        c.Among s ns
  /-- The class is in a part of a body. -/
  | part {c : ClassSite} {s : Surroundings} {ns : List Node} {n : Node} :
      n ∈ ns → isBody n.kind = true → c.Among s n.children → c.Among s ns

theorem Among.mono {c : ClassSite} {s : Surroundings} {ns ms : List Node} (h : c.Among s ns)
    (hsub : ns ⊆ ms) : c.Among s ms := by
  cases h with
  | self hn hkind => exact .self (hsub hn) hkind
  | member hn hkind hbody hc => exact .member (hsub hn) hkind hbody hc
  | part hn hkind hc => exact .part (hsub hn) hkind hc

/-- A last part comes after a dot. -/
theorem intercalate_concat {parts : List String} (hparts : parts ≠ []) (last : String) :
    ".".intercalate (parts ++ [last]) = ".".intercalate parts ++ "." ++ last := by
  rw [String.intercalate_append_of_ne_nil hparts (List.cons_ne_nil last []),
    String.intercalate_singleton]

/-- The name of a type is the last part of its qualified name. -/
theorem qualified_inside (s : Surroundings) (outer name : String) :
    (s.inside outer).qualified name = s.qualified outer ++ "." ++ name := by
  rw [Surroundings.qualified, Surroundings.qualified, Surroundings.inside, ← List.append_assoc,
    intercalate_concat (by simp)]

/-- Only an empty name has an empty qualified name. -/
theorem name_eq_of_qualified_eq {s : Surroundings} {name : String} (h : s.qualified name = "") :
    name = "" := by
  have hlast : ∀ parts : List String, ".".intercalate (parts ++ [name]) = "" → name = "" := by
    intro parts hparts
    cases parts with
    | nil => rwa [List.nil_append, String.intercalate_singleton] at hparts
    | cons part parts =>
        rw [intercalate_concat (List.cons_ne_nil part parts), String.append_eq_empty_iff] at hparts
        exact hparts.2
  exact hlast _ h

/-- A class is known by its name in its surroundings. -/
theorem qualified_unit (c : ClassSite) :
    c.unit.qualified = c.surroundings.qualified c.unit.name := by
  have hunit : c.unit.qualified = if c.surroundings.qualified c.unit.name == "" then c.unit.name
      else c.surroundings.qualified c.unit.name := rfl
  rw [hunit]
  split
  · rename_i hempty
    rw [eq_of_beq hempty, name_eq_of_qualified_eq (eq_of_beq hempty)]
  · rfl

end ClassSite

mutual

theorem Node.exists_among :
    (n : Node) → (s : Surroundings) → ∀ u ∈ n.units s, ∃ c : ClassSite, c.Among s [n] ∧ c.unit = u
  | ⟨role, kind, text, startLine, endLine, children⟩, s, u, hu => by
    rw [Node.units] at hu
    split at hu
    · rename_i hclass
      rcases List.mem_cons.1 hu with rfl | hu
      · exact ⟨_, .self List.mem_cons_self (eq_of_beq hclass), rfl⟩
      · obtain ⟨body, hbody, c, hc, rfl⟩ := exists_among_ofBody children (s.inside _) u hu
        exact ⟨c, .member List.mem_cons_self (Or.inl (eq_of_beq hclass)) hbody hc, rfl⟩
    · split at hu
      · rename_i hcontainer
        obtain ⟨body, hbody, c, hc, rfl⟩ := exists_among_ofBody children (s.inside _) u hu
        exact ⟨c, .member List.mem_cons_self (Or.inr hcontainer) hbody hc, rfl⟩
      · split at hu
        · rename_i hbody
          obtain ⟨c, hc, rfl⟩ := exists_among_ofAll children s u hu
          exact ⟨c, .part List.mem_cons_self hbody hc, rfl⟩
        · cases hu

theorem exists_among_ofAll :
    (nodes : List Node) → (s : Surroundings) → ∀ u ∈ unitsOfAll s nodes,
      ∃ c : ClassSite, c.Among s nodes ∧ c.unit = u
  | [], s, u, hu => by
    rw [unitsOfAll] at hu
    cases hu
  | n :: nodes, s, u, hu => by
    rw [unitsOfAll] at hu
    rcases List.mem_append.1 hu with hu | hu
    · obtain ⟨c, hc, rfl⟩ := Node.exists_among n s u hu
      exact ⟨c, hc.mono (by simp), rfl⟩
    · obtain ⟨c, hc, rfl⟩ := exists_among_ofAll nodes s u hu
      exact ⟨c, hc.mono (List.subset_cons_self n nodes), rfl⟩

theorem exists_among_ofBody :
    (nodes : List Node) → (s : Surroundings) → ∀ u ∈ unitsOfBody s nodes,
      ∃ body, nodes.find? (·.role == some .body) = some body ∧
        ∃ c : ClassSite, c.Among s body.children ∧ c.unit = u
  | [], s, u, hu => by
    rw [unitsOfBody] at hu
    cases hu
  | ⟨role, kind, text, startLine, endLine, children⟩ :: nodes, s, u, hu => by
    rw [unitsOfBody] at hu
    split at hu
    · rename_i hrole
      exact ⟨_, List.find?_cons_of_pos hrole, exists_among_ofAll children s u hu⟩
    · rename_i hrole
      obtain ⟨body, hbody, hc⟩ := exists_among_ofBody nodes s u hu
      exact ⟨body, by rw [List.find?_cons, eq_false_of_ne_true hrole, hbody], hc⟩

end

/-- Every unit of a program is the unit of a class in it. -/
theorem exists_among_of_mem_programUnits {file : Option Path} {program : Node} {u : CodeUnit}
    (hu : u ∈ program.programUnits file) :
    ∃ c : ClassSite, c.Among ⟨file, program.package?, []⟩ program.children ∧ c.unit = u :=
  exists_among_ofAll _ _ u hu

/-! ### Declarations with their types -/

/-- The type of the superclass of a class. -/
def Node.superclassType? (n : Node) : Option Node :=
  (n.child? .superclass).bind fun clause => clause.children.head?

theorem Node.superclassName?_eq (n : Node) :
    n.superclassName? = n.superclassType?.bind Node.typeName? := by
  rw [superclassName?, superclassType?, Option.bind_assoc]

/-- The variables in a list of declarations that have types with names. -/
def namedTypes (declarations : List (String × Option Node)) : List (String × String) :=
  declarations.flatMap fun d => typedName d.1 (d.2.bind Node.typeName?)

/-- A variable of another name is not found. -/
theorem lookup_typedName_of_ne {x y : String} (h : (y == x) = false) (type : Option String) :
    (typedName y type).lookup x = none := by
  have hne : (x == y) = false := by rwa [Bool.beq_comm]
  unfold typedName
  split
  · rfl
  · split
    · rfl
    · rw [List.lookup_cons, hne, List.lookup_nil]

/-- The local variables that a node declares. -/
def Node.localVariables (n : Node) : List (String × Option Node) :=
  match n.kind with
  | .localVariableDeclaration =>
    (n.childrenAs .declarator).map fun d => (d.childText .name, n.child? .type)
  | .enhancedForStatement => (n.child? .name).toList.map fun name => (name.string, n.child? .type)
  | _ => []

theorem Node.localTypes_eq (n : Node) : n.localTypes = namedTypes n.localVariables := by
  unfold localTypes localVariables namedTypes
  generalize n.kind = kind
  cases kind
  case localVariableDeclaration =>
    simp only [List.flatMap_map]
    rfl
  case enhancedForStatement => cases n.child? .name <;> simp [declaredType?]
  all_goals rfl

/-- The parameter that a node declares. -/
def Node.parameter (n : Node) : List (String × Option Node) :=
  let (name, type) :=
    if n.kind == .spreadParameter then
      let name := match (n.children.filter (·.kind == .variableDeclarator)).getLast? with
        | some declarator => declarator.child? .name
        | none => n.child? .name
      (name, (n.child? .type).or (n.children.find? isTypeNode))
    else (n.child? .name, n.child? .type)
  name.toList.map fun name => (name.string, type)

theorem Node.parameterType_eq (n : Node) : n.parameterType = namedTypes n.parameter := by
  unfold parameterType parameter namedTypes
  generalize (if n.kind == .spreadParameter then _ else _ : Option Node × Option Node) = both
  obtain ⟨name, type⟩ := both
  cases name <;> simp

/-- The parameters and local variables of a method, in the order of the source. -/
def Node.bindings (n : Node) : List (String × Option Node) :=
  n.parameters.flatMap Node.parameter ++ n.bodyScope.flatMap Node.localVariables

/-- Of the variables of a method the names of their types are known. -/
theorem Node.locals_method (n : Node) : n.method.locals = namedTypes n.bindings := by
  have hflat : ∀ (ns : List Node) (f : Node → List (String × Option Node)),
      ns.flatMap (fun n => namedTypes (f n)) = namedTypes (ns.flatMap f) :=
    fun ns f => List.flatMap_assoc.symm
  rw [method, bindings, funext parameterType_eq, funext localTypes_eq, hflat, hflat]
  exact List.flatMap_append.symm

/-- The type of a variable that is declared first with a type of this name. -/
theorem Node.typeOf?_method {n : Node} {x name : String} {type : Node}
    (hfind : n.bindings.find? (·.1 == x) = some (x, some type))
    (hname : type.typeName? = some name) (hne : name ≠ "") : n.method.typeOf? x = some name := by
  rw [Method.typeOf?, locals_method]
  generalize n.bindings = ds at hfind
  induction ds with
  | nil => cases hfind
  | cons d ds ih =>
      rw [namedTypes, List.flatMap_cons, List.lookup_append]
      rw [List.find?_cons] at hfind
      cases hd : d.1 == x with
      | true =>
          rw [hd, Option.some_inj] at hfind
          simp [hfind, hname, typedName, hne]
      | false =>
          rw [hd] at hfind
          rw [lookup_typedName_of_ne hd, Option.none_or]
          exact ih hfind

theorem Node.typeOf?_method_eq_none {n : Node} {x : String} (h : ∀ d ∈ n.bindings, d.1 ≠ x) :
    n.method.typeOf? x = none := by
  rw [Method.typeOf?, locals_method]
  generalize n.bindings = ds at h
  induction ds with
  | nil => rfl
  | cons d ds ih =>
      rw [List.forall_mem_cons] at h
      rw [namedTypes, List.flatMap_cons, List.lookup_append,
        lookup_typedName_of_ne (beq_false_of_ne h.1), Option.none_or]
      exact ih h.2

/-- The fields that a member of a class declares. -/
def Node.fieldVariables (n : Node) : List (String × Option Node) :=
  if n.kind == .fieldDeclaration then
    (n.childrenAs .declarator).map fun d => (d.childText .name, n.child? .type)
  else []

theorem Node.fields_eq (n : Node) : n.fields =
    n.fieldVariables.map fun d => ⟨d.1, (d.2.bind Node.typeName?).getD ""⟩ := by
  unfold fields fieldVariables
  split
  · simp only [List.map_map]
    rfl
  · rfl

namespace ClassSite

/-- The fields of a class. -/
def fieldVariables (c : ClassSite) : List (String × Option Node) :=
  c.node.members.flatMap Node.fieldVariables

/-- The methods of a class. -/
def methodNodes (c : ClassSite) : List Node :=
  c.node.members.filter (·.kind == .methodDeclaration)

theorem methods_unit (c : ClassSite) : c.unit.methods = c.methodNodes.map Node.method := rfl

theorem superclass_unit (c : ClassSite) :
    c.unit.superclass = c.node.superclassType?.bind Node.typeName? :=
  c.node.superclassName?_eq

theorem fields_unit (c : ClassSite) : c.unit.fields =
    c.fieldVariables.map fun d => ⟨d.1, (d.2.bind Node.typeName?).getD ""⟩ := by
  rw [fieldVariables, List.map_flatMap, ← funext Node.fields_eq]
  rfl

/-- The type of a field that is declared first with a type of this name. -/
theorem fieldType?_unit {c : ClassSite} {x name : String} {type : Node}
    (hfind : c.fieldVariables.find? (·.1 == x) = some (x, some type))
    (hname : type.typeName? = some name) : c.unit.fieldType? x = some name := by
  have hfirst : (c.fieldVariables.find?
      ((fun f : Field => f.name == x) ∘ fun d => ⟨d.1, (d.2.bind Node.typeName?).getD ""⟩)) =
        some (x, some type) := hfind
  rw [CodeUnit.fieldType?, fields_unit, List.find?_map, hfirst]
  simp [hname]

end ClassSite

/-! ### Written names -/

mutual

/-- The parts of the name by which a type is written, without arguments and brackets; a type that
is written otherwise has none. -/
def Node.writtenNames : Node → List String
  | ⟨_, kind, text, _, _, children⟩ =>
    match kind with
    | .typeIdentifier => [String.ofList text]
    | .genericType => firstWrittenNames children
    | .arrayType => elementWrittenNames children
    | .scopedTypeIdentifier =>
      firstWrittenNames children ++ (children.getLast?.map (·.string)).toList
    | _ => []

/-- The parts of the name of the type that comes first. -/
def firstWrittenNames : List Node → List String
  | [] => []
  | n :: _ => n.writtenNames

/-- The parts of the name of the type of the elements of an array. -/
def elementWrittenNames : List Node → List String
  | [] => []
  | n@⟨role, _, _, _, _, _⟩ :: rest =>
    if role == some .element then n.writtenNames else elementWrittenNames rest

end

mutual

theorem Node.typeName?_of_getLast? : (n : Node) → {name : String} →
    n.writtenNames.getLast? = some name → n.typeName? = some name
  | ⟨role, kind, text, startLine, endLine, children⟩, name, h => by
    unfold Node.writtenNames at h
    unfold Node.typeName?
    cases kind
    case typeIdentifier => exact h
    case genericType => exact firstTypeName?_of_getLast? children h
    case arrayType => exact elementTypeName?_of_getLast? children h
    case scopedTypeIdentifier =>
      cases hlast : children.getLast? with
      | none =>
          obtain rfl := List.getLast?_eq_none_iff.1 hlast
          simp [firstWrittenNames] at h
      | some last =>
          simp only [hlast, Option.map_some, Option.toList_some, List.getLast?_append,
            List.getLast?_singleton, Option.some_or] at h ⊢
          exact h
    all_goals cases h

theorem firstTypeName?_of_getLast? : (nodes : List Node) → {name : String} →
    (firstWrittenNames nodes).getLast? = some name → firstTypeName? nodes = some name
  | [], name, h => by simp [firstWrittenNames] at h
  | n :: nodes, name, h => by
    rw [firstWrittenNames] at h
    rw [firstTypeName?]
    exact Node.typeName?_of_getLast? n h

theorem elementTypeName?_of_getLast? : (nodes : List Node) → {name : String} →
    (elementWrittenNames nodes).getLast? = some name → elementTypeName? nodes = some name
  | [], name, h => by simp [elementWrittenNames] at h
  | ⟨role, kind, text, startLine, endLine, children⟩ :: nodes, name, h => by
    rw [elementWrittenNames] at h
    rw [elementTypeName?]
    split at h
    · rename_i hrole
      rw [if_pos hrole]
      exact Node.typeName?_of_getLast? _ h
    · rename_i hrole
      rw [if_neg hrole]
      exact elementTypeName?_of_getLast? nodes h

end

/-- A type is written by the qualified name of a unit: the parts with dots between them are the
qualified name, and the last part is the simple name. -/
structure Node.Writes (type : Node) (u : CodeUnit) : Prop where
  /-- The parts make up the qualified name. -/
  qualified : u.qualified = ".".intercalate type.writtenNames
  /-- The last part is the simple name. -/
  simple : type.writtenNames.getLast? = some u.name
  /-- The simple name is not empty. -/
  nonempty : u.name ≠ ""

/-- Of a type that is written by the qualified name of a unit only the simple name is known. -/
theorem Node.Writes.typeName?_eq {type : Node} {u : CodeUnit} (h : type.Writes u) :
    type.typeName? = some u.name :=
  type.typeName?_of_getLast? h.simple

end Cohesion.Java
