/-
Which declaration of a local variable counts.

Blocks and loops of a method can declare different variables of one name.  The method keeps one list
of all of them, with the parameters in front, and for a receiver the first one of its name counts,
wherever the invocation stands.  So a variable never gives way to a field, but in the second of two
blocks the search starts at the type that is written in the first one.  The resource of a block and
the variable of a pattern are not in the list at all: there a field of the name takes their place.

Main definitions:
* `Site.InForce`, `Node.Binds` — the declarations of local variables that are in force at a node,
  and the type that is written for a name there;
* `Node.FirstType` — the type that a method writes first for a name;
* `Node.Undeclared` — names that only other variables have.

Main results:
* `Node.Binds.mem_bindings` — whatever is in force is kept for the method;
* `Node.Undeclared.notMem_bindings` — no other variable is kept;
* `Java.first_declaration_counts` — **the search starts at the type that the method writes first for
  the name**, so at the one in force if all are the same;
* `Java.variable_misread` — in another block the search starts at the wrong class.
-/
import Cohesion.Proofs.Java.Invocations
import Cohesion.Proofs.Resolution.Calls
import Cohesion.Proofs.Resolution.WrittenTypes

set_option autoImplicit false

namespace Cohesion.Java

/-! ### Declarations in force -/

/-- A declaration of a local variable is in force at a node. -/
inductive Site.InForce (d t : Site) : Prop where
  /-- The node comes after the declaration, in the block or the header in which that stands. -/
  | after {outer rest : List Nat} {k l : Nat} : d.node.kind = .localVariableDeclaration →
      d.place = outer ++ [k] → t.place = outer ++ l :: rest → k ≤ l → InForce d t
  /-- The node is in the body of the loop that declares the variable. -/
  | loop {body : List Nat} : d.node.kind = .enhancedForStatement → d.bodyPlace? = some body →
      body <+: t.place → InForce d t

/-- An invocation stands in the body of a method, with no class declared between. -/
structure Node.HasCall (mn : Node) (body : Node) (t : Site) (i : Invocation) : Prop where
  /-- The body. -/
  child : mn.child? .body = some body
  /-- It is a block. -/
  block : body.kind = .block
  /-- The invocation is in it. -/
  mem : t ∈ body.sites
  /-- No class is around it. -/
  around : ∀ n ∈ t.around, n.kind ≠ .classDeclaration
  /-- It is an invocation. -/
  invocation : t.node.invocation? = some i

/-- The type that is written for a name by a parameter, or by a declaration in a body that is in
force at a node of it. -/
inductive Node.Binds (mn : Node) (body : Node) (t : Site) (x : String) (type : Node) : Prop where
  /-- By a parameter. -/
  | parameter {p : Node} : p ∈ mn.parameters → (x, some type) ∈ p.parameter → Binds mn body t x type
  /-- By the declaration of a local variable. -/
  | local {d : Site} : d ∈ body.sites → d.InForce t → (x, some type) ∈ d.node.localVariables →
      Binds mn body t x type

/-- What is around a node is also around what comes later at the same place. -/
theorem Node.around_subset {n : Node} {d t : Site} {outer rest : List Nat} {k l : Nat}
    (hd : d ∈ n.sites) (ht : t ∈ n.sites) (hdplace : d.place = outer ++ [k])
    (htplace : t.place = outer ++ l :: rest) : d.around ⊆ t.around := by
  induction outer generalizing n d t with
  | nil =>
      have hlength := length_place hd
      rw [hdplace] at hlength
      rw [List.length_eq_zero_iff.1 (Nat.succ.inj hlength).symm]
      exact List.nil_subset _
  | cons j outer ih =>
      obtain ⟨i, c, hc, rfl | ⟨u, hu, rfl⟩⟩ := mem_sites_iff_child.1 hd
      · simp at hdplace
      obtain ⟨i', c', hc', rfl | ⟨v, hv, rfl⟩⟩ := mem_sites_iff_child.1 ht
      · simp at htplace
      simp only [Site.place_below, Site.place_at, List.cons_append, List.nil_append,
        List.cons.injEq] at hdplace htplace
      obtain ⟨rfl, hu'⟩ := hdplace
      obtain ⟨rfl, hv'⟩ := htplace
      obtain rfl : c = c' := Option.some.inj (hc.symm.trans hc')
      exact List.cons_subset_cons c (ih hu hv hu' hv')

namespace Node

variable {mn body type : Node} {t : Site} {i : Invocation} {x : String}

theorem HasCall.bodyScope_eq (h : mn.HasCall body t i) :
    mn.bodyScope = body :: (body.sites.filter Site.isOutOfClasses).map (·.node) := by
  rw [bodyScope, h.child]
  exact scope_of_block h.block

/-- The nodes of a body that no class surrounds are among those that are looked through. -/
theorem HasCall.mem_bodyScope (h : mn.HasCall body t i) {d : Site} (hd : d ∈ body.sites)
    (haround : ∀ n ∈ d.around, n.kind ≠ .classDeclaration)
    (hkind : d.node.kind ≠ .classDeclaration) : d.node ∈ mn.bodyScope := by
  have hclasses : d.isOutOfClasses = true := by
    simpa [Site.isOutOfClasses] using And.intro haround hkind
  rw [h.bodyScope_eq]
  exact List.mem_cons_of_mem _ (List.mem_map_of_mem (List.mem_filter.2 ⟨hd, hclasses⟩))

theorem HasCall.mem_invocations (h : mn.HasCall body t i) : i ∈ mn.method.invocations := by
  have hkind : t.node.kind ≠ .classDeclaration := by
    intro hkind
    have hinvocation := h.invocation
    rw [invocation?, hkind] at hinvocation
    cases hinvocation
  exact List.mem_filterMap.2 ⟨t.node, h.mem_bodyScope h.mem h.around hkind, h.invocation⟩

/-- **Whatever is in force at an invocation is kept for the method.** -/
theorem Binds.mem_bindings (h : mn.Binds body t x type) (hcall : mn.HasCall body t i) :
    (x, some type) ∈ mn.bindings := by
  cases h with
  | parameter hp hx => exact List.mem_append_left _ (List.mem_flatMap.2 ⟨_, hp, hx⟩)
  | @«local» d hd hforce hx =>
      have hscope : d.node ∈ mn.bodyScope := by
        cases hforce with
        | after hkind hdplace htplace hle =>
            have hsub := around_subset hd hcall.mem hdplace htplace
            exact hcall.mem_bodyScope hd (fun n hn => hcall.around n (hsub hn)) (by simp [hkind])
        | @loop place hkind hplace hfront =>
            obtain ⟨j, -, rfl⟩ := Option.map_eq_some_iff.1 hplace
            rcases eq_or_below hd hcall.mem ((List.prefix_append _ _).trans hfront) with
              rfl | ⟨u, -, rfl⟩
            · exact hcall.mem_bodyScope hd hcall.around (by simp [hkind])
            · refine hcall.mem_bodyScope hd (fun n hn => hcall.around n ?_) (by simp [hkind])
              exact List.mem_append_left _ hn
      exact List.mem_append_right _ (List.mem_flatMap.2 ⟨_, hscope, hx⟩)

end Node

/-! ### The first declaration -/

/-- The type that a method writes first for a name: parameters come before local variables, and a
type without a name does not count. -/
def Node.FirstType (mn : Node) (x name : String) : Prop :=
  ∃ before after type, mn.bindings = before ++ (x, type) :: after ∧
    type.bind typeName? = some name ∧ name ≠ "" ∧
    ∀ d ∈ before, d.1 = x → ∀ other, d.2.bind typeName? = some other → other = ""

theorem typedName_eq_nil_iff {x : String} {type : Option String} :
    typedName x type = [] ↔ ∀ name, type = some name → name = "" := by
  cases type with
  | none => simp [typedName]
  | some name => by_cases hname : name = "" <;> simp [typedName, hname]

/-- A name for which a type with a name is written has a first one, and this is kept. -/
theorem exists_lookup_namedTypes {ds : List (String × Option Node)} {x name : String} {type : Node}
    (hmem : (x, some type) ∈ ds) (hname : type.typeName? = some name) (hne : name ≠ "") :
    ∃ before after first type, ds = before ++ (x, type) :: after ∧
      type.bind Node.typeName? = some first ∧ first ≠ "" ∧
      (∀ d ∈ before, d.1 = x → ∀ other, d.2.bind Node.typeName? = some other → other = "") ∧
      (namedTypes ds).lookup x = some first := by
  induction ds with
  | nil => cases hmem
  | cons d ds ih =>
      rw [namedTypes, List.flatMap_cons, List.lookup_append]
      by_cases hfirst : d.1 = x ∧ ∃ first, d.2.bind Node.typeName? = some first ∧ first ≠ ""
      · obtain ⟨rfl, first, htype, hfirst⟩ := hfirst
        refine ⟨[], ds, first, d.2, rfl, htype, hfirst, by simp, ?_⟩
        simp [typedName, htype, hfirst]
      · -- it is not this one that counts
        have hunnamed : d.1 = x → ∀ other, d.2.bind Node.typeName? = some other → other = "" :=
          fun hx other hother => by_contra fun hempty => hfirst ⟨hx, other, hother, hempty⟩
        have hrest : (x, some type) ∈ ds := by
          rcases List.mem_cons.1 hmem with rfl | hmem
          · exact absurd (hunnamed rfl name hname) hne
          · exact hmem
        have hnone : (typedName d.1 (d.2.bind Node.typeName?)).lookup x = none := by
          by_cases hx : d.1 = x
          · rw [typedName_eq_nil_iff.2 (hunnamed hx), List.lookup_nil]
          · exact lookup_typedName_of_ne (beq_false_of_ne hx) _
        obtain ⟨before, after, first, type', hds, htype, hfirst, hbefore, hlookup⟩ := ih hrest
        refine ⟨d :: before, after, first, type', by rw [hds, List.cons_append], htype, hfirst,
          List.forall_mem_cons.2 ⟨hunnamed, hbefore⟩, ?_⟩
        rw [hnone, Option.none_or]
        exact hlookup

theorem Node.exists_firstType {mn type : Node} {x name : String}
    (hmem : (x, some type) ∈ mn.bindings) (hname : type.typeName? = some name) (hne : name ≠ "") :
    ∃ first, mn.FirstType x first ∧ mn.method.typeOf? x = some first := by
  obtain ⟨before, after, first, type', hds, htype, hfirst, hbefore, hlookup⟩ :=
    exists_lookup_namedTypes hmem hname hne
  refine ⟨first, ⟨before, after, type', hds, htype, hfirst, hbefore⟩, ?_⟩
  rw [Method.typeOf?, locals_method, hlookup]

/-- A variable that has a type with a name is kept with it. -/
theorem Node.mem_locals (mn : Node) {d : String × Option Node} {name : String}
    (hd : d ∈ mn.bindings) (hname : d.2.bind typeName? = some name) (hne : name ≠ "") :
    (d.1, name) ∈ mn.method.locals := by
  rw [locals_method]
  refine List.mem_flatMap.2 ⟨d, hd, ?_⟩
  simp [typedName, hname, hne]

/-- The type that a method writes first for a name is kept in place of that of a field. -/
theorem start?_eq_lookup?_first (r : Resolver) (u : CodeUnit) {m : Method} {x first : String}
    (htype : m.typeOf? x = some first) (hne : first ≠ "") :
    r.start? u m (.simple x) = r.lookup? (some first) u := by
  rw [Resolver.start?, Resolver.variableType?, htype, Option.filter_some,
    if_pos (by simpa using hne), Option.some_or]

/-! ### Other variables -/

/-- No parameter has a name, and in a body no declaration of local variables and no loop over a
collection: it is at most that of another variable, as the resource of a block or the variable of a
pattern is. -/
structure Node.Undeclared (mn body : Node) (x : String) : Prop where
  /-- No parameter has it. -/
  parameter : ∀ p ∈ mn.parameters, ∀ d ∈ p.parameter, d.1 ≠ x
  /-- Nothing in the body declares it. -/
  inBody : ∀ s ∈ body.sites,
    s.node.kind = .localVariableDeclaration ∨ s.node.kind = .enhancedForStatement →
      ∀ d ∈ s.node.localVariables, d.1 ≠ x

theorem Node.kind_of_mem_localVariables {n : Node} {d : String × Option Node}
    (h : d ∈ n.localVariables) :
    n.kind = .localVariableDeclaration ∨ n.kind = .enhancedForStatement := by
  rw [localVariables] at h
  split at h
  · exact Or.inl ‹_›
  · exact Or.inr ‹_›
  · cases h

/-- **No other variable is kept for a method.** -/
theorem Node.Undeclared.notMem_bindings {mn body : Node} {t : Site} {i : Invocation} {x : String}
    (h : mn.Undeclared body x) (hcall : mn.HasCall body t i) : ∀ d ∈ mn.bindings, d.1 ≠ x := by
  intro d hd
  rcases List.mem_append.1 hd with hd | hd
  · obtain ⟨p, hp, hd⟩ := List.mem_flatMap.1 hd
    exact h.parameter p hp d hd
  · obtain ⟨n, hn, hd⟩ := List.mem_flatMap.1 hd
    have hkind := kind_of_mem_localVariables hd
    rw [hcall.bodyScope_eq] at hn
    rcases List.mem_cons.1 hn with rfl | hn
    · -- the block itself declares nothing
      rw [hcall.block] at hkind
      rcases hkind with hkind | hkind <;> cases hkind
    · obtain ⟨s, hs, rfl⟩ := List.mem_map.1 hn
      exact h.inBody s (List.mem_filter.1 hs).1 hkind d hd

/-- Where a field of a name gives way to no variable, its type is looked up, and without a field the
name itself is. -/
theorem start?_eq_of_not_declared (r : Resolver) (u : CodeUnit) {m : Method} {x : String}
    (htype : m.typeOf? x = none) :
    r.start? u m (.simple x) =
      match r.fieldType? u x with
      | some type => r.lookup? type u
      | none => r.lookup? x u := by
  rw [Resolver.start?, Resolver.variableType?, htype]
  rfl

/-! ### Receivers -/

/-- **The search starts at the type that the method writes first for the name.**  Let the receiver
of an invocation in a method of an indexed class be a name.  If a parameter or a local variable of
this name is in force that is declared with a type, then the search starts at the class that is
preferred under the name of the type that is written first for the name in the method, whatever
fields there are.  If all declarations of the name in the method have types of the same name, this
is the class of the type in force, and the search goes up from there.  A name that only a resource
or the variable of a pattern has is not known: the search starts where it does for a field. -/
theorem first_declaration_counts {sources : List (Path × Node)} {c : ClassSite}
    (hc : c.Indexed sources) {mn body : Node} (hmn : mn ∈ c.methodNodes) {t : Site}
    {i : Invocation} (hcall : mn.HasCall body t i) {x : String}
    (hreceiver : Receiver.ofText i.receiver = .simple x) :
    ⟨c.unit, mn.method, i⟩ ∈ invocationSites (indexedUnits sources) ∧
      (∀ type name, mn.Binds body t x type → type.typeName? = some name → name ≠ "" →
        ∃ first, mn.FirstType x first ∧
          (∀ v : CodeUnit,
            (resolver sources).start? c.unit mn.method (.ofText i.receiver) = some v ↔
              (resolver sources).Preferred first c.unit v) ∧
          ((∀ d ∈ mn.bindings, d.1 = x →
              ∀ other, d.2.bind Node.typeName? = some other → other = name ∨ other = "") →
            first = name ∧ ∀ v : CodeUnit, (resolver sources).Preferred name c.unit v →
              (resolver sources).target? ⟨c.unit, mn.method, i⟩ =
                (resolver sources).declaring? v i.method)) ∧
      (mn.Undeclared body x →
        (resolver sources).start? c.unit mn.method (.ofText i.receiver) =
          match (resolver sources).fieldType? c.unit x with
          | some type => (resolver sources).lookup? type c.unit
          | none => (resolver sources).lookup? x c.unit) := by
  refine ⟨mem_invocationSites_iff.2 ⟨hc.kept, List.mem_map_of_mem hmn, hcall.mem_invocations⟩,
    fun type name hbinds hname hne => ?_, fun hundeclared => ?_⟩
  · obtain ⟨first, hfirst, htype⟩ := Node.exists_firstType (hbinds.mem_bindings hcall) hname hne
    obtain ⟨before, after, type', hds, htype', hfirstne, -⟩ := id hfirst
    have hstart : ∀ v : CodeUnit,
        (resolver sources).start? c.unit mn.method (.ofText i.receiver) = some v ↔
          (resolver sources).Preferred first c.unit v := by
      intro v
      rw [hreceiver, start?_eq_lookup?_first _ _ htype hfirstne,
        Resolver.lookup?_eq_some_iff hfirstne]
    refine ⟨first, hfirst, hstart, fun hsame => ?_⟩
    have hmem : (x, type') ∈ mn.bindings :=
      hds ▸ List.mem_append_right before List.mem_cons_self
    have heq : first = name := (hsame _ hmem rfl first htype').resolve_right hfirstne
    refine ⟨heq, fun v hv => ?_⟩
    rw [Resolver.target?, Resolver.resolve?, (hstart v).2 (heq ▸ hv), Option.bind_some]
  · rw [hreceiver]
    exact start?_eq_of_not_declared _ _
      (Node.typeOf?_method_eq_none (hundeclared.notMem_bindings hcall))

/-! ### Variables in loops and blocks -/

/-- A class that declares a method. -/
def goUnit (name : String) (line : Int) : CodeUnit where
  name := name
  qualified := name
  file := some (.ofParts ["Use.java"])
  startLine := line
  endLine := line
  methods := [{ name := "go", startLine := line, endLine := line }]

/-- A file with the classes `Bar` and `Foo`, and a class that calls their method from a body. -/
def callerSource (body : String) : Path × Node :=
  (.ofParts ["Use.java"], Node.ofText <| ['\n'].intercalate <| List.map String.toList
    ["class Bar \x7b void go() \x7b \x7d \x7d", "class Foo \x7b void go() \x7b \x7d \x7d",
      "class Use \x7b Bar x; void run(Object o) \x7b", body, "\x7d \x7d"])

/-- The class that calls, with the invocations on a variable and what is kept of the variables. -/
def callerUnit (calls : Nat) (locals : List (String × String)) : CodeUnit where
  name := "Use"
  qualified := "Use"
  file := some (.ofParts ["Use.java"])
  startLine := 3
  endLine := 5
  fields := [⟨"x", "Bar"⟩]
  methods := [{ name := "run", paramCount := 1, startLine := 3, endLine := 5
                invocations := List.replicate calls ⟨"go", some "x", 4⟩
                locals := ("o", "Object") :: locals }]

/-- A loop with a variable in its header. -/
def loopBody : String := "for (Foo x = null; ; ) x.go();"

/-- Two blocks with variables of one name. -/
def blocksBody : String := "\x7b Foo x = null; x.go(); \x7d \x7b Bar x = null; x.go(); \x7d"

/-- A block with a resource. -/
def resourceBody : String := "try (Foo x = null) \x7b x.go(); \x7d"

/-- A test with a pattern. -/
def patternBody : String := "if (o instanceof Foo x) x.go();"

theorem keepFirst_eq_self {kept units : List CodeUnit}
    (hkept : ∀ u ∈ units, ∀ k ∈ kept, k.same u = false)
    (hunits : units.Pairwise fun u v => u.same v = false) :
    (Collection.keepFirst kept units).units = units := by
  induction units generalizing kept with
  | nil => rfl
  | cons u units ih =>
      rw [List.forall_mem_cons] at hkept
      rw [List.pairwise_cons] at hunits
      have hnone : kept.find? (·.same u) = none :=
        List.find?_eq_none.2 fun k hk => by simp [hkept.1 k hk]
      simp only [Collection.keepFirst, hnone]
      rw [ih (fun v hv => List.forall_mem_cons.2 ⟨hunits.1 v hv, hkept.2 v hv⟩) hunits.2]

/-- Units whose names go up are kept in their order. -/
theorem indexedUnits_eq_of_names {sources : List (Path × Node)} {units : List CodeUnit}
    (hunits : sources.flatMap (fun s => s.2.programUnits (some s.1)) = units)
    (hnames : (units.map (·.qualified)).Pairwise (· < ·)) : indexedUnits sources = units := by
  rw [List.pairwise_map] at hnames
  refine indexedUnits_eq_of_pairwise hunits (hnames.imp fun h => ?_)
    (keepFirst_eq_self (by simp) (hnames.imp fun h => ?_))
  · simp [CodeUnit.atMost, h]
  · simpa [CodeUnit.same] using ne_of_lt h

/-- The units of a file with the two classes and a class that calls. -/
theorem indexedUnits_caller {body : String} {calls : Nat} {locals : List (String × String)}
    (h : (callerSource body).2.programUnits (some (callerSource body).1) =
      [goUnit "Bar" 1, goUnit "Foo" 2, callerUnit calls locals]) :
    indexedUnits [callerSource body] =
      [goUnit "Bar" 1, goUnit "Foo" 2, callerUnit calls locals] := by
  refine indexedUnits_eq_of_names ?_ ?_
  · rw [List.flatMap_singleton, h]
  · have hnames : ["Bar", "Foo", "Use"].Pairwise (· < ·) := by decide
    exact hnames

/-- A body has an invocation on a variable at one place, and at another one a declaration of the
variable with a type of a name. -/
def hasVariable (body : Node) (declaration invocation : List Nat) (kind : Kind) (name : String) :
    Bool :=
  (body.sites.any fun t => t.place == invocation && t.around.all (·.kind != .classDeclaration) &&
    t.node.invocation? == some ⟨"go", some "x", 4⟩) &&
  body.sites.any fun d => d.place == declaration && d.node.kind == kind &&
    d.node.localVariables.any fun v => v.1 == "x" && v.2.any fun type => type.typeName? == some name

/-- A file has the two classes and a class that calls, and so has the body of that. -/
def callerHas (body : String) (caller : CodeUnit) (declaration invocation : List Nat) (kind : Kind)
    (name : String) : Bool :=
  let program := (callerSource body).2
  let surroundings : Surroundings := ⟨some (callerSource body).1, program.package?, []⟩
  program.programUnits (some (callerSource body).1) == [goUnit "Bar" 1, goUnit "Foo" 2, caller] &&
    program.children.any fun n => n.kind == .classDeclaration && n.unit surroundings == caller &&
      (ClassSite.mk surroundings n).methodNodes.any fun mn =>
        (mn.child? .body).any fun body => body.kind == .block &&
          hasVariable body declaration invocation kind name

/-- The units of such a file. -/
theorem indexedUnits_of_callerHas {body : String} {calls : Nat} {locals : List (String × String)}
    {declaration invocation : List Nat} {kind : Kind} {name : String}
    (h : callerHas body (callerUnit calls locals) declaration invocation kind name = true) :
    indexedUnits [callerSource body] =
      [goUnit "Bar" 1, goUnit "Foo" 2, callerUnit calls locals] := by
  simp only [callerHas, Bool.and_eq_true, beq_iff_eq] at h
  exact indexedUnits_caller h.1

theorem exists_variable {body : String} {caller : CodeUnit} {declaration invocation : List Nat}
    {kind : Kind} {name : String}
    (h : callerHas body caller declaration invocation kind name = true)
    (hkept : caller ∈ indexedUnits [callerSource body]) :
    ∃ (c : ClassSite) (mn block type : Node) (t d : Site), c.Indexed [callerSource body] ∧
      c.unit = caller ∧ mn ∈ c.methodNodes ∧ mn.HasCall block t ⟨"go", some "x", 4⟩ ∧
      t.place = invocation ∧ d ∈ block.sites ∧ d.place = declaration ∧ d.node.kind = kind ∧
      ("x", some type) ∈ d.node.localVariables ∧ type.typeName? = some name := by
  simp only [callerHas, hasVariable, Option.any_eq_true, List.any_eq_true, List.all_eq_true,
    Bool.and_eq_true, beq_iff_eq, bne_iff_ne] at h
  obtain ⟨-, n, hn, ⟨hkind, hunit⟩, mn, hmn, block, hblock, hblockKind,
    ⟨t, ht, ⟨hplace, haround⟩, hinvocation⟩, d, hd, ⟨hdplace, hdkind⟩, ⟨_, _⟩, hv, rfl, type, rfl,
    hname⟩ := h
  refine ⟨⟨_, n⟩, mn, block, type, t, d, ⟨⟨_, List.mem_singleton_self _, .self hn hkind⟩, ?_⟩,
    hunit, hmn, ⟨hblock, hblockKind, ht, haround, hinvocation⟩, hplace, hd, hdplace, hdkind, hv,
    hname⟩
  rwa [ClassSite.unit, hunit]

theorem ofText_x : Receiver.ofText (some "x") = .simple "x" := by
  decide

/-- The one method of the class that calls. -/
theorem method_of_callerUnit {c : ClassSite} {calls : Nat} {locals : List (String × String)}
    (hunit : c.unit = callerUnit calls locals) {mn : Node} (hmn : mn ∈ c.methodNodes) :
    mn.method = { name := "run", paramCount := 1, startLine := 3, endLine := 5
                  invocations := List.replicate calls ⟨"go", some "x", 4⟩
                  locals := ("o", "Object") :: locals } := by
  have hmethod : mn.method ∈ c.unit.methods := List.mem_map_of_mem hmn
  rw [hunit] at hmethod
  exact List.mem_singleton.1 hmethod

/-- The variable in the header of a loop hides a field of its name. -/
theorem first_declaration_counts_loop : ∃ (c : ClassSite) (mn block type : Node) (t : Site),
    c.Indexed [callerSource loopBody] ∧ mn ∈ c.methodNodes ∧
      mn.HasCall block t ⟨"go", some "x", 4⟩ ∧ mn.Binds block t "x" type ∧
      type.typeName? = some "Foo" ∧ c.unit.fieldType? "x" = some "Bar" ∧
      (resolver [callerSource loopBody]).target? ⟨c.unit, mn.method, ⟨"go", some "x", 4⟩⟩ =
        some (goUnit "Foo" 2) := by
  have hhas : callerHas loopBody (callerUnit 1 [("x", "Foo")]) [0, 0] [0, 1, 0, 0]
      .localVariableDeclaration "Foo" = true := by
    -- the kernel reads the characters of a list much faster than those of a literal
    simp only [callerHas, callerSource, loopBody, List.map_cons, List.map_nil]
    repeat rw [String.toList_ofList]
    decide +kernel
  have hunits := indexedUnits_of_callerHas hhas
  obtain ⟨c, mn, block, type, t, d, hc, hunit, hmn, hcall, hplace, hd, hdplace, hkind, hx, hname⟩ :=
    exists_variable hhas (by simp [hunits])
  have hbinds : mn.Binds block t "x" type :=
    .local hd (@Site.InForce.after d t [0] [0, 0] 0 1 hkind hdplace hplace (Nat.zero_le 1)) hx
  obtain ⟨-, hdeclared, -⟩ := first_declaration_counts hc hmn hcall ofText_x
  obtain ⟨first, -, -, hsame⟩ := hdeclared type "Foo" hbinds hname (by decide)
  have honly : ∀ d ∈ mn.bindings, d.1 = "x" →
      ∀ other, d.2.bind Node.typeName? = some other → other = "Foo" ∨ other = "" := by
    intro d hd hx other hother
    by_cases hempty : other = ""
    · exact Or.inr hempty
    · have hmem := mn.mem_locals hd hother hempty
      rw [method_of_callerUnit hunit hmn, hx] at hmem
      exact Or.inl (by simpa using hmem)
  have hpreferred : (resolver [callerSource loopBody]).Preferred "Foo" c.unit (goUnit "Foo" 2) := by
    refine (Resolver.lookup?_eq_some_iff (by decide)).1 ?_
    rw [hunit, resolver, hunits]
    decide +kernel
  refine ⟨c, mn, block, type, t, hc, hmn, hcall, hbinds, hname, ?_, ?_⟩
  · rw [hunit]
    decide +kernel
  · rw [(hsame honly).2 _ hpreferred, resolver, hunits]
    decide +kernel

/-- **In another block the search starts at the wrong class.**  In the second of two blocks a
variable of the class `Bar` is in force, but the search starts at the class `Foo` of the variable in
the first block, and both calls are counted there.  For a resource and for the variable of a pattern
of the class `Foo` the search starts at the class `Bar` of a field of the name. -/
theorem variable_misread :
    (∃ (c : ClassSite) (mn block type : Node) (t : Site),
      c.Indexed [callerSource blocksBody] ∧ mn ∈ c.methodNodes ∧
        mn.HasCall block t ⟨"go", some "x", 4⟩ ∧ mn.Binds block t "x" type ∧
        (resolver [callerSource blocksBody]).lookup? type.typeName? c.unit =
          some (goUnit "Bar" 1) ∧
        (resolver [callerSource blocksBody]).start? c.unit mn.method (.ofText (some "x")) =
          some (goUnit "Foo" 2)) ∧
      (CallGraph.ofUnits (indexedUnits [callerSource blocksBody])).calls.map Call.entry =
        [("Use", "Foo", 2)] ∧
      (CallGraph.ofUnits (indexedUnits [callerSource resourceBody])).calls.map Call.entry =
        [("Use", "Bar", 1)] ∧
      (CallGraph.ofUnits (indexedUnits [callerSource patternBody])).calls.map Call.entry =
        [("Use", "Bar", 1)] := by
  have hhas : callerHas blocksBody (callerUnit 2 [("x", "Foo"), ("x", "Bar")]) [1, 0] [1, 1, 0, 0]
      .localVariableDeclaration "Bar" = true := by
    simp only [callerHas, callerSource, blocksBody, List.map_cons, List.map_nil]
    repeat rw [String.toList_ofList]
    decide +kernel
  have hblocks := indexedUnits_of_callerHas hhas
  have hresource : indexedUnits [callerSource resourceBody] =
      [goUnit "Bar" 1, goUnit "Foo" 2, callerUnit 1 []] := by
    refine indexedUnits_caller ?_
    simp only [callerSource, resourceBody, List.map_cons, List.map_nil]
    repeat rw [String.toList_ofList]
    decide +kernel
  have hpattern : indexedUnits [callerSource patternBody] =
      [goUnit "Bar" 1, goUnit "Foo" 2, callerUnit 1 []] := by
    refine indexedUnits_caller ?_
    simp only [callerSource, patternBody, List.map_cons, List.map_nil]
    repeat rw [String.toList_ofList]
    decide +kernel
  rw [hblocks, hresource, hpattern]
  refine ⟨?_, by decide +kernel, by decide +kernel, by decide +kernel⟩
  obtain ⟨c, mn, block, type, t, d, hc, hunit, hmn, hcall, hplace, hd, hdplace, hkind, hx, hname⟩ :=
    exists_variable hhas (by simp [hblocks])
  refine ⟨c, mn, block, type, t, hc, hmn, hcall,
    .local hd (@Site.InForce.after d t [1] [0, 0] 0 1 hkind hdplace hplace (Nat.zero_le 1)) hx,
    ?_, ?_⟩
  · rw [hname, hunit, resolver, hblocks]
    decide +kernel
  · rw [method_of_callerUnit hunit hmn, hunit, resolver, hblocks]
    decide +kernel

end Cohesion.Java
