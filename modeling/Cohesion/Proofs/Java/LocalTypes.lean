/-
Types that are declared in the body of a method.

A method looks through its body for invocations and for declarations of variables.  It does not look
into a class that is declared there, wherever in the body that is: such a class is a scope of its
own.  Interfaces, enumerations and records are not told apart from other parts of the body, so what
is invoked or declared in them counts for the method around them, unless they stand in a class or it
stands in a class in them.

Main definitions:
* `Node.IsLocalType` — a type that is declared in the body of a method, at any depth;
* `Node.Gathers` — what a method takes from some nodes;
* `Node.ScopesTypes` — which nodes in local types a method looks at.

Main results:
* `Node.gathers_method` — a method takes all that it has from the nodes outside of classes;
* `Node.below_mem_seenIn_iff` — a node in a local type is looked at with the type, unless a class
  is between;
* `localTypes_scoped` — **of all local types only classes are scopes of their own**;
* `localTypes_leak` — what is in a record, an enumeration or an interface counts for the method.
-/
import Cohesion.Proofs.Java.Invocations

set_option autoImplicit false

namespace Cohesion.Java

/-! ### Types and what a method takes -/

/-- A node stands in the body of another one. -/
def Site.isInside (t m : Site) : Bool :=
  m.bodyPlace?.any fun b => b.isPrefixOf t.place && t.place != b

/-- A type that is declared in the body of a method, at any depth: a class, an interface, an
enumeration or a record. -/
structure Node.IsLocalType (program : Node) (l m : Site) : Prop where
  /-- It is in the tree. -/
  mem : l ∈ program.sites
  /-- It is a type. -/
  type : isType l.node.kind = true
  /-- It is in the body of the method. -/
  inside : l.isInside m = true

/-- What a method has taken from some nodes. -/
structure Node.Gathers (mn : Node) (ts : List Site) (method : Method) : Prop where
  /-- There is one invocation for each of the nodes that is one, in their order. -/
  invocations : List.Forall₂ (fun t i => t.node.invocation? = some i)
    (ts.filter (·.node.kind == .methodInvocation)) method.invocations
  /-- The variables are the parameters and those that the nodes declare, in their order. -/
  locals : method.locals =
    mn.parameters.flatMap Node.parameterType ++ ts.flatMap (·.node.localTypes)

/-- Which nodes in the types of a body are looked at. -/
structure Node.ScopesTypes (program : Node) (m : Site) : Prop where
  /-- Nothing that is in a class. -/
  classes : ∀ l, program.IsLocalType l m → l.node.kind = .classDeclaration →
    ∀ u ∈ l.node.sites, l.below u ∉ program.seenIn m
  /-- Nothing that is in a type in a class. -/
  inClasses : ∀ l, program.IsLocalType l m → l.isIn m = false →
    ∀ u ∈ l.node.sites, l.below u ∉ program.seenIn m
  /-- All that is in another type, unless it is a class there or in one. -/
  others : ∀ l, program.IsLocalType l m → l.node.kind ≠ .classDeclaration → l.isIn m = true →
    ∀ u ∈ l.node.sites, (l.below u ∈ program.seenIn m ↔ u.isOutOfClasses = true)

namespace Node

variable {program : Node} {l m t u : Site}

theorem localTypes_of_block {b : Node} (h : b.kind = .block) : b.localTypes = [] := by
  rw [localTypes, h]

/-- A method takes its invocations and variables from the nodes that it looks at. -/
theorem gathers_method (hm : m ∈ program.sites) (hshaped : m.node.Shaped)
    (hkind : m.node.kind = .methodDeclaration) :
    m.node.Gathers (program.seenIn m) m.node.method := by
  obtain ⟨hscope, hblock⟩ := bodyScope_eq hm hshaped hkind
  have hlocals : m.node.method.locals = m.node.parameters.flatMap Node.parameterType ++
      m.node.bodyScope.flatMap Node.localTypes := rfl
  constructor
  case invocations =>
    rw [← callsIn_eq]
    exact invocations_method hm hshaped hkind
  case locals =>
    have hbody : (m.node.child? .body).toList.flatMap localTypes = [] :=
      List.flatMap_eq_nil_iff.2 fun b hb => localTypes_of_block (hblock b (by simpa using hb))
    rw [hlocals, hscope, List.flatMap_append, hbody, List.nil_append, List.flatMap_map]

/-! ### Local types -/

/-- The body of a method is in front of what is in it, and around it unless that is the body. -/
theorem isIn_below_iff (hl : program.IsLocalType l m) (hu : u ∈ l.node.sites) :
    (l.below u).isIn m = true ↔ l.isIn m = true ∧ l.node.kind ≠ .classDeclaration ∧
      ∀ n ∈ u.around, n.kind ≠ .classDeclaration := by
  obtain ⟨place, hplace, hin⟩ := (Option.any_eq_true _ _).1 hl.inside
  rw [Bool.and_eq_true, List.isPrefixOf_iff_prefix, bne_iff_ne] at hin
  obtain ⟨hfront, hne⟩ := hin
  have hlength : place.length ≤ l.around.length := by
    have hlt : place.length < l.place.length :=
      lt_of_le_of_ne hfront.length_le fun h => hne (hfront.eq_of_length h).symm
    rw [length_place hl.mem] at hlt
    omega
  -- what is around the node is what is around the type, the type, and what is around it in there
  have haround : (l.below u).around.drop place.length =
      l.around.drop place.length ++ l.node :: u.around :=
    List.drop_append_of_le_length hlength
  have hplace' : ∀ q, m.bodyPlace? = some q → q = place :=
    fun q hq => Option.some.inj (hq.symm.trans hplace)
  constructor
  · intro h
    obtain ⟨q, hq, -, -, hclasses⟩ := Site.isIn_iff.1 h
    obtain rfl := hplace' q hq
    rw [haround, List.forall_mem_append, List.forall_mem_cons] at hclasses
    exact ⟨Site.isIn_iff.2 ⟨q, hq, hfront, hne, hclasses.1⟩, hclasses.2⟩
  · rintro ⟨h, hkind, hinside⟩
    obtain ⟨q, hq, -, -, hclasses⟩ := Site.isIn_iff.1 h
    obtain rfl := hplace' q hq
    refine Site.isIn_iff.2 ⟨q, hq, hfront.trans (List.prefix_append _ _), fun heq => ?_, ?_⟩
    · have hlong := congrArg List.length heq
      have hshort := hfront.length_le
      have hpos := List.length_pos_of_ne_nil (place_ne_nil hu)
      rw [Site.place_below, List.length_append] at hlong
      omega
    · rw [haround, List.forall_mem_append, List.forall_mem_cons]
      exact ⟨hclasses, hkind, hinside⟩

/-- A node in a local type is looked at if the type is, and no class is between. -/
theorem below_mem_seenIn_iff (hl : program.IsLocalType l m) (hu : u ∈ l.node.sites) :
    l.below u ∈ program.seenIn m ↔ l ∈ program.seenIn m ∧ u.isOutOfClasses = true := by
  have hout : u.isOutOfClasses = true ↔
      (∀ n ∈ u.around, n.kind ≠ .classDeclaration) ∧ u.node.kind ≠ .classDeclaration := by
    simp [Site.isOutOfClasses]
  rw [mem_seenIn_iff, mem_seenIn_iff, isIn_below_iff hl hu, hout, Site.node_below]
  constructor
  · rintro ⟨-, ⟨hin, hkind, haround⟩, hnode⟩
    exact ⟨⟨hl.mem, hin, hkind⟩, haround, hnode⟩
  · rintro ⟨⟨-, hin, hkind⟩, haround, hnode⟩
    exact ⟨below_mem hl.mem hu, ⟨hin, hkind, haround⟩, hnode⟩

/-- Of the types in a body only classes are scopes of their own. -/
theorem scopesTypes (program : Node) (m : Site) : program.ScopesTypes m where
  classes l hl hkind u hu h := by
    obtain ⟨hseen, -⟩ := (below_mem_seenIn_iff hl hu).1 h
    exact (mem_seenIn_iff.1 hseen).2.2 hkind
  inClasses l hl hin u hu h := by
    obtain ⟨hseen, -⟩ := (below_mem_seenIn_iff hl hu).1 h
    rw [(mem_seenIn_iff.1 hseen).2.1] at hin
    cases hin
  others l hl hkind hin u hu := by
    rw [below_mem_seenIn_iff hl hu, and_iff_right]
    exact mem_seenIn_iff.2 ⟨hl.mem, hin, hkind⟩

end Node

/-- **Of all types in the body of a method only classes are scopes of their own.**  The invocations
and variables of a method come from the nodes in its body at which it looks, one after the other.
It looks at nothing in a class that is declared in the body, at any depth, but at all that is in an
interface, an enumeration or a record, if these are in no class and it is in no class in them. -/
theorem localTypes_scoped {program : Node} (h : program.HasBodies) (file : Option Path) :
    List.Forall₂ (Site.Makes program) program.unitSites (program.programUnits file) ∧
      ∀ m s, program.IsMethodOf m s →
        m.node.Gathers (program.seenIn m) m.node.method ∧ program.ScopesTypes m :=
  ⟨(programUnits_listsClasses h file).made,
    fun m _ hm => ⟨Node.gathers_method hm.mem (hm.shaped h) hm.kind, program.scopesTypes m⟩⟩

/-! ### Types in one method -/

/-- A class with a method that has a parameter, and a body on a line of its own. -/
def bodySource (body : String) : List Char :=
  ['\n'].intercalate <| List.map String.toList
    ["class A \x7b", "  void m(int p) \x7b", body, "  \x7d", "\x7d"]

/-- What the methods of the units of a source have. -/
def methodContents (units : List CodeUnit) :
    List (String × List Invocation × List (String × String)) :=
  units.flatMap fun u => u.methods.map fun m => (m.name, m.invocations, m.locals)

/-- A method with a record in whose method a class is declared, and with a class in whose method an
enumeration is. -/
def scopedBody : String :=
  "f(); record R() \x7b void k() \x7b g(); class L \x7b void n() \x7b B b = null; b.h(); \x7d \x7d" ++
    " \x7d \x7d class K \x7b void k() \x7b enum E \x7b X; void n() \x7b i(); \x7d \x7d \x7d \x7d"

/-- The method counts what is in the record, but not what is in the classes there or around the
enumeration. -/
theorem localTypes_scoped_mixed : (Node.ofText (bodySource scopedBody)).HasBodies ∧
    (∃ s ∈ (Node.ofText (bodySource scopedBody)).unitSites,
      ∃ m ∈ (Node.ofText (bodySource scopedBody)).methodSites s,
        m.node.Gathers ((Node.ofText (bodySource scopedBody)).seenIn m) m.node.method ∧
          (Node.ofText (bodySource scopedBody)).ScopesTypes m ∧
          (((Node.ofText (bodySource scopedBody)).sites.filter fun l =>
            isType l.node.kind && l.isInside m).map fun l =>
              (l.node.childText .name, l.isIn m)) =
                [("R", true), ("L", true), ("K", true), ("E", false)]) ∧
    methodContents (extractUnits none (bodySource scopedBody)) =
      [("m", [⟨"f", none, 3⟩, ⟨"g", none, 3⟩], [("p", "int")])] := by
  have hbodies := Node.hasBodies_ofText (bodySource scopedBody)
  have hsource : (∃ s ∈ (Node.ofText (bodySource scopedBody)).unitSites,
        ∃ m ∈ (Node.ofText (bodySource scopedBody)).methodSites s,
          (((Node.ofText (bodySource scopedBody)).sites.filter fun l =>
            isType l.node.kind && l.isInside m).map fun l =>
              (l.node.childText .name, l.isIn m)) =
                [("R", true), ("L", true), ("K", true), ("E", false)]) ∧
      methodContents (extractUnits none (bodySource scopedBody)) =
        [("m", [⟨"f", none, 3⟩, ⟨"g", none, 3⟩], [("p", "int")])] := by
    -- the kernel reads the characters of a list much faster than those of a literal
    unfold bodySource scopedBody
    repeat rw [List.map_cons]
    rw [String.toList_append]
    repeat rw [String.toList_ofList]
    decide +kernel
  obtain ⟨⟨s, hs, m, hm, hlocal⟩, hcontents⟩ := hsource
  obtain ⟨hgathers, hscopes⟩ := (localTypes_scoped hbodies none).2 m s ⟨hs, hm⟩
  exact ⟨hbodies, ⟨s, hs, m, hm, hgathers, hscopes, hlocal⟩, hcontents⟩

/-- A record, an enumeration and an interface, each with a method that has a variable and an
invocation. -/
def leakyTypes : List String :=
  ["record R(int x) \x7b void n() \x7b B b = null; b.h(); \x7d \x7d",
    "enum E \x7b X; void n() \x7b B b = null; b.h(); \x7d \x7d",
    "interface I \x7b default void n() \x7b B b = null; b.h(); \x7d \x7d"]

/-- An invocation and a variable in a type that is declared in the body of a method of a program
count for this method. -/
def Leaks (program : Node) : Prop :=
  (∃ s ∈ program.unitSites, ∃ m ∈ program.methodSites s, ∃ l ∈ program.sites,
    isType l.node.kind = true ∧ l.isInside m = true ∧
      (∃ u ∈ l.node.sites, (l.below u).isIn m = true ∧
        u.node.invocation? = some ⟨"h", some "b", 3⟩) ∧
      ∃ u ∈ l.node.sites, (l.below u).isIn m = true ∧ u.node.localTypes = [("b", "B")]) ∧
    methodContents (program.programUnits none) =
      [("m", [⟨"h", some "b", 3⟩], [("p", "int"), ("b", "B")])]

instance (program : Node) : Decidable (Leaks program) := by
  delta Leaks
  infer_instance

/-- Records, enumerations and interfaces are not scopes of their own. -/
theorem localTypes_leak :
    leakyTypes.Forall fun body => Leaks (Node.ofText (bodySource body)) := by
  rw [List.forall_iff_forall_mem]
  simp only [leakyTypes, bodySource, List.forall_mem_cons, List.map_cons, List.map_nil]
  repeat rw [String.toList_ofList]
  decide +kernel

end Cohesion.Java
