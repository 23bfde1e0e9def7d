/-
Where the search starts that a written type leads to.

An invocation on a field, a parameter, a local variable or on `super` is resolved through a type in
the source.  If the type is written by the qualified name of a class, then still only the simple
name is looked up, with a preference for the package of the calling class.  So the search starts at
the class that was written exactly when this class is preferred under its simple name: a class of
the same simple name in the package of the calling class takes its place.

Main definitions:
* `indexedUnits` — the indexed units of files, each with its syntax tree;
* `ClassSite.Indexed` — the classes of files whose units are indexed;
* `ClassSite.HasField`, `ClassSite.Through` — the type of a field, and the type through which a
  receiver is resolved.

Main results:
* `ClassSite.exists_indexed` — every indexed unit is that of a class in the files;
* `ClassSite.Through.start?_eq_lookup?` — what is looked up is the name of the type;
* `Java.start_iff_preferred` — **a written class is found exactly when it is preferred under its
  simple name**;
* `Java.exists_misled_search` — a call goes to another class than the one that was written.
-/
import Cohesion.Java.Grammar.Program
import Cohesion.Proofs.Indexing.Completion
import Cohesion.Proofs.Java.Declarations
import Cohesion.Proofs.Resolution.Preference

set_option autoImplicit false

namespace Cohesion

namespace Java

/-! ### Indexed classes -/

/-- The indexed units of files, each with its syntax tree. -/
def indexedUnits (sources : List (Path × Node)) : List CodeUnit :=
  (Collection.ofFiles (sources.map fun s => s.2.programUnits (some s.1))).units

/-- The resolver of the indexed units of files. -/
def resolver (sources : List (Path × Node)) : Resolver := ⟨indexedUnits sources⟩

theorem mem_programUnits_of_indexed {sources : List (Path × Node)} {u : CodeUnit}
    (hu : u ∈ indexedUnits sources) : ∃ s ∈ sources, u ∈ s.2.programUnits (some s.1) := by
  have hmem := (CodeUnit.sorted_perm _).mem_iff.1 ((Collection.keepFirst_sublist [] _).mem hu)
  obtain ⟨units, hunits, hu⟩ := List.mem_flatten.1 hmem
  obtain ⟨s, hs, rfl⟩ := List.mem_map.1 hunits
  exact ⟨s, hs, hu⟩

namespace ClassSite

variable {sources : List (Path × Node)} {c : ClassSite} {mn type : Node} {name : String}

/-- A class of some files whose unit is indexed. -/
structure Indexed (sources : List (Path × Node)) (c : ClassSite) : Prop where
  /-- The class is in one of the files. -/
  found : ∃ s ∈ sources, c.Among ⟨some s.1, s.2.package?, []⟩ s.2.children
  /-- Its unit is kept. -/
  kept : c.unit ∈ indexedUnits sources

/-- Every indexed unit is that of an indexed class. -/
theorem exists_indexed {u : CodeUnit} (hu : u ∈ indexedUnits sources) :
    ∃ c : ClassSite, c.Indexed sources ∧ c.unit = u := by
  obtain ⟨s, hs, hmem⟩ := mem_programUnits_of_indexed hu
  obtain ⟨c, hc, rfl⟩ := exists_among_of_mem_programUnits hmem
  exact ⟨c, ⟨⟨s, hs, hc⟩, hu⟩, rfl⟩

/-! ### Types through which receivers are resolved -/

/-- A class has or inherits a field with a type: the field is declared in an indexed class, the
first one among the class and its superclasses that has a field of this name. -/
def HasField (sources : List (Path × Node)) (c : ClassSite) (x : String) (type : Node) :
    Prop :=
  ∃ before after, ∃ owner : ClassSite, owner.Indexed sources ∧
    (resolver sources).hierarchy c.unit = before ++ owner.unit :: after ∧
    (∀ u ∈ before, ∀ f ∈ u.fields, f.name ≠ x) ∧
    owner.fieldVariables.find? (·.1 == x) = some (x, some type)

/-- The type through which a receiver in a method of a class is resolved. -/
inductive Through (sources : List (Path × Node)) (c : ClassSite) (mn : Node) :
    Receiver → Node → Prop where
  /-- The superclass of the class. -/
  | parent {type : Node} : c.node.superclassType? = some type → Through sources c mn .parent type
  /-- The type of a parameter or local variable; the first one of a name counts. -/
  | inMethod {x : String} {type : Node} : mn.bindings.find? (·.1 == x) = some (x, some type) →
      Through sources c mn (.simple x) type
  /-- The type of a field that no parameter or local variable hides. -/
  | field {x : String} {type : Node} : (∀ d ∈ mn.bindings, d.1 ≠ x) →
      c.HasField sources x type → Through sources c mn (.simple x) type
  /-- The type of a field of the current object. -/
  | ownField {x : String} {type : Node} : c.HasField sources x type →
      Through sources c mn (.ownField x) type

section

variable (hname : type.typeName? = some name) (hne : name ≠ "")

include hname

theorem parent?_eq_lookup? (r : Resolver) (h : c.node.superclassType? = some type) :
    r.parent? c.unit = r.lookup? (some name) c.unit := by
  rw [Resolver.parent?, superclass_unit, h, Option.bind_some, hname]

include hne

/-- The type of a field is known by its name. -/
theorem HasField.fieldType?_eq {x : String} (h : c.HasField sources x type) :
    (resolver sources).fieldType? c.unit x = some name := by
  obtain ⟨before, after, owner, -, hhierarchy, hbefore, hfind⟩ := h
  exact Resolver.fieldType?_eq_some hhierarchy hbefore (fieldType?_unit hfind hname) hne

/-- What is looked up for a receiver is the name of the type through which it is resolved. -/
theorem Through.start?_eq_lookup? {receiver : Receiver}
    (h : c.Through sources mn receiver type) :
    (resolver sources).start? c.unit mn.method receiver =
      (resolver sources).lookup? (some name) c.unit := by
  cases h with
  | parent h => exact parent?_eq_lookup? hname _ h
  | inMethod h =>
      rw [Resolver.start?, Resolver.variableType?, Node.typeOf?_method h hname hne,
        Option.filter_some, if_pos (by simpa using hne), Option.some_or]
  | field hhidden h =>
      rw [Resolver.start?, Resolver.variableType?, Node.typeOf?_method_eq_none hhidden,
        h.fieldType?_eq hname hne]
      rfl
  | ownField h => rw [Resolver.start?, h.fieldType?_eq hname hne]

end

end ClassSite

/-! ### Written classes -/

/-- **A written class is found exactly when it is preferred under its simple name.**  Let a type in
an indexed class be written by the qualified name of an indexed unit.  If it is the type of the
superclass, then the superclass is this unit exactly when the unit is preferred under its simple
name.  If the receiver of an invocation is resolved through the type, then the same is true of the
unit at which the search starts, and in that case the search goes up from this unit.  The unit is
preferred at least if no other unit has its simple name. -/
theorem start_iff_preferred {sources : List (Path × Node)} {c : ClassSite}
    (hc : c.Indexed sources) {v : CodeUnit} (hv : v ∈ indexedUnits sources) {type : Node}
    (hwrites : type.Writes v) :
    (c.node.superclassType? = some type →
      ((resolver sources).parent? c.unit = some v ↔
        (resolver sources).Preferred v.name c.unit v)) ∧
    (∀ mn ∈ c.methodNodes, ∀ i ∈ mn.method.invocations,
      c.Through sources mn (.ofText i.receiver) type →
        ⟨c.unit, mn.method, i⟩ ∈ invocationSites (indexedUnits sources) ∧
        ((resolver sources).start? c.unit mn.method (.ofText i.receiver) = some v ↔
          (resolver sources).Preferred v.name c.unit v) ∧
        ((resolver sources).Preferred v.name c.unit v →
          (resolver sources).target? ⟨c.unit, mn.method, i⟩ =
            (resolver sources).declaring? v i.method)) ∧
    ((∀ w ∈ indexedUnits sources, w.IsNamed v.name → w = v) →
      (resolver sources).Preferred v.name c.unit v) := by
  have hname := hwrites.typeName?_eq
  refine ⟨fun hparent => ?_, fun mn hmn i hi hthrough => ?_, fun hunique => ?_⟩
  · rw [ClassSite.parent?_eq_lookup? hname _ hparent,
      Resolver.lookup?_eq_some_iff hwrites.nonempty]
  · have hmethod : mn.method ∈ c.unit.methods := by
      rw [ClassSite.methods_unit]
      exact List.mem_map_of_mem hmn
    have hstart := hthrough.start?_eq_lookup? hname hwrites.nonempty
    refine ⟨?_, ?_, fun hpreferred => ?_⟩
    · exact List.mem_flatMap.2 ⟨c.unit, hc.kept,
        List.mem_flatMap.2 ⟨mn.method, hmethod, List.mem_map_of_mem hi⟩⟩
    · rw [hstart, Resolver.lookup?_eq_some_iff hwrites.nonempty]
    · rw [Resolver.target?, Resolver.resolve?, hstart,
        (Resolver.lookup?_eq_some_iff hwrites.nonempty).2 hpreferred, Option.bind_some]
  · exact Resolver.preferred_of_unique hv (Or.inl rfl) hunique c.unit

/-! ### A class of the same simple name -/

/-- A file with the class `Foo` of a package. -/
def fooSource (package : String) : Path × Node :=
  (.ofParts [package, "Foo.java"], Node.ofText
    ("package " ++ package ++ "; class Foo \x7b void go() \x7b \x7d \x7d").toList)

/-- A file with a class of the package `p` that calls a method of `q.Foo`. -/
def useSource : Path × Node :=
  (.ofParts ["p", "Use.java"], Node.ofText
    "package p; class Use \x7b void run(q.Foo<String> foo) \x7b foo.go(); \x7d \x7d".toList)

/-- The class `Foo` of a package. -/
def fooUnit (package : String) : CodeUnit where
  name := "Foo"
  qualified := package ++ ".Foo"
  file := some (.ofParts [package, "Foo.java"])
  package := some package
  startLine := 1
  endLine := 1
  methods := [{ name := "go", startLine := 1, endLine := 1 }]

/-- The class that calls, which knows of `q.Foo` only the simple name. -/
def useUnit : CodeUnit where
  name := "Use"
  qualified := "p.Use"
  file := some (.ofParts ["p", "Use.java"])
  package := some "p"
  startLine := 1
  endLine := 1
  methods := [{ name := "run", paramCount := 1, startLine := 1, endLine := 1
                invocations := [⟨"go", some "foo", 1⟩], locals := [("foo", "Foo")] }]

/-- Units that are found in the order of their names are kept in this order. -/
theorem indexedUnits_eq_of_pairwise {sources : List (Path × Node)} {units : List CodeUnit}
    (hunits : sources.flatMap (fun s => s.2.programUnits (some s.1)) = units)
    (hsorted : units.Pairwise fun u v => u.atMost v = true)
    (hunique : (Collection.keepFirst [] units).units = units) : indexedUnits sources = units := by
  rw [indexedUnits, Collection.ofFiles, ← List.flatMap_def, hunits,
    List.mergeSort_of_pairwise hsorted, hunique]

/-- The file with the class that calls, in whose method the parameter is the first variable of its
name and written with the type `q.Foo`. -/
theorem exists_useNode : useSource.2.programUnits (some useSource.1) = [useUnit] ∧
    ∃ (n mn type : Node) (i : Invocation),
      n ∈ useSource.2.children ∧ n.kind = .classDeclaration ∧
      n.unit ⟨some useSource.1, useSource.2.package?, []⟩ = useUnit ∧
      mn ∈ (ClassSite.mk ⟨some useSource.1, useSource.2.package?, []⟩ n).methodNodes ∧
      i ∈ mn.method.invocations ∧ i.receiver = some "foo" ∧ i.method = "go" ∧
      mn.bindings.find? (·.1 == "foo") = some ("foo", some type) ∧
      type.writtenNames = ["q", "Foo"] := by
  have htree : (useSource.2.programUnits (some useSource.1) == [useUnit] &&
      useSource.2.children.any fun n => n.kind == .classDeclaration &&
        n.unit ⟨some useSource.1, useSource.2.package?, []⟩ == useUnit &&
          (ClassSite.mk ⟨some useSource.1, useSource.2.package?, []⟩ n).methodNodes.any fun mn =>
            (mn.method.invocations.any fun i => i.receiver == some "foo" && i.method == "go") &&
              (mn.bindings.find? (·.1 == "foo")).any fun d => d.1 == "foo" &&
                d.2.any fun type => type.writtenNames == ["q", "Foo"]) = true := by
    -- the kernel reads the characters of a list much faster than those of a literal
    unfold useSource
    rw [String.toList_ofList]
    decide +kernel
  simp only [Option.any_eq_true, List.any_eq_true, Bool.and_eq_true, beq_iff_eq] at htree
  obtain ⟨hunits, n, hn, ⟨hkind, hunit⟩, mn, hmn, ⟨i, hi, hreceiver, hmethod⟩, ⟨x, _⟩, hfind, rfl,
    type, rfl, hnames⟩ := htree
  exact ⟨hunits, n, mn, type, i, hn, hkind, hunit, hmn, hi, hreceiver, hmethod, hfind, hnames⟩

theorem programUnits_fooSource_p :
    (fooSource "p").2.programUnits (some (fooSource "p").1) = [fooUnit "p"] := by
  unfold fooSource
  repeat rw [String.toList_append]
  repeat rw [String.toList_ofList]
  decide +kernel

theorem programUnits_fooSource_q :
    (fooSource "q").2.programUnits (some (fooSource "q").1) = [fooUnit "q"] := by
  unfold fooSource
  repeat rw [String.toList_append]
  repeat rw [String.toList_ofList]
  decide +kernel

/-- Without another class of the simple name. -/
theorem indexedUnits_single :
    indexedUnits [useSource, fooSource "q"] = [useUnit, fooUnit "q"] := by
  refine indexedUnits_eq_of_pairwise ?_ (by decide +kernel) (by decide +kernel)
  rw [List.flatMap_cons, List.flatMap_cons, exists_useNode.1, programUnits_fooSource_q]
  rfl

/-- With another class of the simple name, in the package of the calling class. -/
theorem indexedUnits_double : indexedUnits [fooSource "p", useSource, fooSource "q"] =
    [fooUnit "p", useUnit, fooUnit "q"] := by
  refine indexedUnits_eq_of_pairwise ?_ (by decide +kernel) (by decide +kernel)
  rw [List.flatMap_cons, List.flatMap_cons, List.flatMap_cons, exists_useNode.1,
    programUnits_fooSource_p, programUnits_fooSource_q]
  rfl

theorem writes_fooUnit {type : Node} (h : type.writtenNames = ["q", "Foo"]) :
    type.Writes (fooUnit "q") where
  qualified := by rw [h]; decide +kernel
  simple := by rw [h]; rfl
  nonempty := by decide

/-- Among all files with the class that calls, its invocation is resolved through a type that is
written `q.Foo`. -/
theorem exists_useSite {sources : List (Path × Node)} (hsource : useSource ∈ sources)
    (hkept : useUnit ∈ indexedUnits sources) :
    ∃ (c : ClassSite) (mn type : Node) (i : Invocation), c.Indexed sources ∧ c.unit = useUnit ∧
      mn ∈ c.methodNodes ∧ i ∈ mn.method.invocations ∧ i.method = "go" ∧
      c.Through sources mn (.ofText i.receiver) type ∧ type.Writes (fooUnit "q") := by
  obtain ⟨-, n, mn, type, i, hn, hkind, hunit, hmn, hi, hreceiver, hmethod, hfind, hnames⟩ :=
    exists_useNode
  refine ⟨⟨_, n⟩, mn, type, i, ⟨⟨_, hsource, .self hn hkind⟩, ?_⟩, hunit, hmn, hi, hmethod, ?_,
    writes_fooUnit hnames⟩
  · rwa [ClassSite.unit, hunit]
  · rw [hreceiver]
    exact .inMethod hfind

/-- The search starts at the written class, and this class declares the method. -/
theorem start_iff_preferred_single : ∃ (c : ClassSite) (mn type : Node) (i : Invocation),
    c.Indexed [useSource, fooSource "q"] ∧ type.Writes (fooUnit "q") ∧
      c.Through [useSource, fooSource "q"] mn (.ofText i.receiver) type ∧
      (resolver [useSource, fooSource "q"]).target? ⟨c.unit, mn.method, i⟩ = some (fooUnit "q") := by
  have hunits := indexedUnits_single
  obtain ⟨c, mn, type, i, hc, -, hmn, hi, hmethod, hthrough, hwrites⟩ :=
    exists_useSite List.mem_cons_self (hunits ▸ List.mem_cons_self)
  obtain ⟨-, hinvocations, hunique⟩ := start_iff_preferred hc (by simp [hunits]) hwrites
  have hpreferred := hunique (by rw [hunits]; decide +kernel)
  refine ⟨c, mn, type, i, hc, hwrites, hthrough, ?_⟩
  rw [(hinvocations mn hmn i hi hthrough).2.2 hpreferred, hmethod, resolver, hunits]
  decide +kernel

/-- **A call goes to another class than the one that was written**: the parameter is written with
the type `q.Foo`, which is indexed, but the search starts at `p.Foo`, and the call is counted
there. -/
theorem exists_misled_search : ∃ (c : ClassSite) (mn type : Node) (i : Invocation),
    c.Indexed [fooSource "p", useSource, fooSource "q"] ∧
      fooUnit "q" ∈ indexedUnits [fooSource "p", useSource, fooSource "q"] ∧
      type.Writes (fooUnit "q") ∧ mn ∈ c.methodNodes ∧ i ∈ mn.method.invocations ∧
      c.Through [fooSource "p", useSource, fooSource "q"] mn (.ofText i.receiver) type ∧
      (resolver [fooSource "p", useSource, fooSource "q"]).start? c.unit mn.method
        (.ofText i.receiver) = some (fooUnit "p") ∧
      (CallGraph.ofUnits (indexedUnits [fooSource "p", useSource, fooSource "q"])).calls =
        [⟨useUnit, fooUnit "p", 1⟩] := by
  have hunits := indexedUnits_double
  have hsource : useSource ∈ [fooSource "p", useSource, fooSource "q"] := by simp
  obtain ⟨c, mn, type, i, hc, hunit, hmn, hi, -, hthrough, hwrites⟩ :=
    exists_useSite hsource (by simp [hunits])
  refine ⟨c, mn, type, i, hc, by simp [hunits], hwrites, hmn, hi, hthrough, ?_, ?_⟩
  · rw [hthrough.start?_eq_lookup? hwrites.typeName?_eq hwrites.nonempty, hunit, resolver, hunits]
    decide +kernel
  · rw [hunits]
    decide +kernel

end Java

end Cohesion
