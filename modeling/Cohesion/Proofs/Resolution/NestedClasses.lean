/-
Names of nested classes.

A class that is declared directly in another one has the package of that class, and its qualified
name comes after that of the class.  But it is not looked up by its qualified name.  Where its
simple name is used in the class around it, the search starts at the first unit of this name in
the package: this is the nested class only if no other unit of the name and the package stands
before it, as does a nested class of the same name in a class that comes earlier.

Main definitions:
* `ClassSite.DeclaredIn` — classes that are declared directly in a class.

Main results:
* `ClassSite.DeclaredIn.qualified_eq`, `ClassSite.DeclaredIn.package_eq` — the names of nested
  classes;
* `Java.nested_iff_first` — **a nested class is found under its simple name exactly if it is the
  first one of the name in its package**;
* `Java.nested_class_missed` — a call goes to the nested class of another class.
-/
import Cohesion.Proofs.Resolution.WrittenTypes

set_option autoImplicit false

namespace Cohesion.Java

namespace ClassSite

/-- A class is declared directly in another one: it is one of its members. -/
structure DeclaredIn (d c : ClassSite) : Prop where
  /-- The declaration is a member of the class. -/
  member : d.node ∈ c.node.members
  /-- It declares a class. -/
  kind : d.node.kind = .classDeclaration
  /-- It stands inside the class. -/
  surroundings : d.surroundings = c.surroundings.inside c.unit.name

variable {c d : ClassSite}

theorem DeclaredIn.qualified_eq (h : d.DeclaredIn c) :
    d.unit.qualified = c.unit.qualified ++ "." ++ d.unit.name := by
  rw [qualified_unit, qualified_unit, h.surroundings, qualified_inside]

theorem DeclaredIn.package_eq (h : d.DeclaredIn c) : d.unit.package = c.unit.package := by
  have hpackage : d.surroundings.package = c.surroundings.package := by
    rw [h.surroundings]
    rfl
  exact hpackage

end ClassSite

/-- **A nested class is found under its simple name exactly if it is the first one of the name in
its package.**  Where the name of a class that is declared directly in another one is looked up in
that other class, as the name of a type or of a class, the search starts at the first unit of this
name in the package, and there always is one. -/
theorem nested_iff_first {units : List CodeUnit} {c d : ClassSite} (hin : d.DeclaredIn c)
    (hd : d.unit ∈ units) (hname : d.unit.name ≠ "") :
    d.unit.qualified = c.unit.qualified ++ "." ++ d.unit.name ∧
      ∀ (m : Method) (receiver : Receiver),
        Resolver.LooksUp ⟨units⟩ c.unit m receiver d.unit.name →
          ∃ v : CodeUnit,
            v.IsFirst units (fun w => w.IsNamed d.unit.name ∧ w.package = c.unit.package) ∧
            (v = d.unit ↔ d.unit.IsFirst units fun w =>
              w.IsNamed d.unit.name ∧ w.package = c.unit.package) ∧
            Resolver.start? ⟨units⟩ c.unit m receiver = some v ∧
            ∀ i : Invocation, Receiver.ofText i.receiver = receiver →
              Resolver.resolve? ⟨units⟩ c.unit m i = Resolver.declaring? ⟨units⟩ v i.method := by
  refine ⟨hin.qualified_eq, fun m receiver hlooksUp => ?_⟩
  obtain ⟨v, hv⟩ := CodeUnit.exists_isFirst
    (p := fun w => w.IsNamed d.unit.name ∧ w.package = c.unit.package) hd
    ⟨Or.inl rfl, hin.package_eq⟩
  have hstart : Resolver.start? ⟨units⟩ c.unit m receiver = some v := by
    rw [hlooksUp.start?_eq, Resolver.lookup?_eq_some_iff hname]
    exact Or.inl hv
  refine ⟨v, hv, ⟨fun h => h ▸ hv, fun h => hv.unique h⟩, hstart, fun i hi => ?_⟩
  rw [Resolver.resolve?, hi, hstart, Option.bind_some]

/-! ### Two classes with nested classes of one name -/

/-- A file with a class of the package `p` that calls a method of its nested class `Node`. -/
def nestSource (outer : String) : Path × Node :=
  (.ofParts ["p", outer ++ ".java"], Node.ofText
    ("package p; class " ++ outer ++ " \x7b Node node; void run() \x7b node.go(); \x7d " ++
      "class Node \x7b void go() \x7b \x7d \x7d \x7d").toList)

/-- The method that calls. -/
def runOnNode : Method where
  name := "run"
  startLine := 1
  endLine := 1
  invocations := [⟨"go", some "node", 1⟩]

/-- The class that calls. -/
def outerUnit (outer : String) : CodeUnit where
  name := outer
  qualified := "p." ++ outer
  file := some (.ofParts ["p", outer ++ ".java"])
  package := some "p"
  startLine := 1
  endLine := 1
  fields := [⟨"node", "Node"⟩]
  methods := [runOnNode]

/-- The nested class. -/
def innerUnit (outer : String) : CodeUnit where
  name := "Node"
  qualified := "p." ++ outer ++ ".Node"
  file := some (.ofParts ["p", outer ++ ".java"])
  package := some "p"
  startLine := 1
  endLine := 1
  methods := [{ name := "go", startLine := 1, endLine := 1 }]

/-- A file with a class of another package that has the simple name of the nested class. -/
def strangerSource : Path × Node :=
  (.ofParts ["a", "Node.java"],
    Node.ofText "package a; class Node \x7b void go() \x7b \x7d \x7d".toList)

/-- The class of the other package. -/
def strangerUnit : CodeUnit where
  name := "Node"
  qualified := "a.Node"
  file := some (.ofParts ["a", "Node.java"])
  package := some "a"
  startLine := 1
  endLine := 1
  methods := [{ name := "go", startLine := 1, endLine := 1 }]

theorem programUnits_nestSource_A :
    (nestSource "A").2.programUnits (some (nestSource "A").1) = [outerUnit "A", innerUnit "A"] := by
  -- the kernel reads the characters of a list much faster than those of a literal
  unfold nestSource
  repeat rw [String.toList_append]
  repeat rw [String.toList_ofList]
  decide +kernel

/-- The file of the class `p.B`, which has the nested class. -/
theorem exists_nestNode :
    (nestSource "B").2.programUnits (some (nestSource "B").1) = [outerUnit "B", innerUnit "B"] ∧
    ∃ n ∈ (nestSource "B").2.children, n.kind = .classDeclaration ∧
      n.unit ⟨some (nestSource "B").1, (nestSource "B").2.package?, []⟩ = outerUnit "B" ∧
      ∃ k ∈ n.members, k.kind = .classDeclaration ∧
        k.unit (Surroundings.inside ⟨some (nestSource "B").1, (nestSource "B").2.package?, []⟩
          (n.childText .name)) = innerUnit "B" := by
  unfold nestSource
  repeat rw [String.toList_append]
  repeat rw [String.toList_ofList]
  decide +kernel

theorem programUnits_strangerSource :
    strangerSource.2.programUnits (some strangerSource.1) = [strangerUnit] := by
  unfold strangerSource
  rw [String.toList_ofList]
  decide +kernel

/-- With a nested class of the same name in a class of the package that comes earlier. -/
theorem indexedUnits_nests : indexedUnits [nestSource "A", nestSource "B"] =
    [outerUnit "A", innerUnit "A", outerUnit "B", innerUnit "B"] := by
  refine indexedUnits_eq_of_pairwise ?_ (by decide +kernel) (by decide +kernel)
  rw [List.flatMap_cons, List.flatMap_cons, programUnits_nestSource_A,
    exists_nestNode.1]
  rfl

/-- With a class of the same name in a package that comes earlier. -/
theorem indexedUnits_stranger : indexedUnits [strangerSource, nestSource "B"] =
    [strangerUnit, outerUnit "B", innerUnit "B"] := by
  refine indexedUnits_eq_of_pairwise ?_ (by decide +kernel) (by decide +kernel)
  rw [List.flatMap_cons, List.flatMap_cons, programUnits_strangerSource,
    exists_nestNode.1]
  rfl

/-- The class `p.B` and its nested class among the classes of files. -/
theorem exists_nestSite {sources : List (Path × Node)} (hsource : nestSource "B" ∈ sources)
    (hkept : outerUnit "B" ∈ indexedUnits sources) :
    ∃ c d : ClassSite, c.Indexed sources ∧ d.DeclaredIn c ∧ c.unit = outerUnit "B" ∧
      d.unit = innerUnit "B" := by
  obtain ⟨-, n, hn, hkind, hunit, k, hk, hkind', hunit'⟩ := exists_nestNode
  refine ⟨⟨_, n⟩, ⟨_, k⟩, ⟨⟨_, hsource, .self hn hkind⟩, ?_⟩, ⟨hk, hkind', rfl⟩, hunit, hunit'⟩
  rwa [ClassSite.unit, hunit]

theorem ofText_node : Receiver.ofText (some "node") = .simple "node" := by
  decide

/-- A class of another package does not take the place of a nested class. -/
theorem nested_iff_first_stranger : ∃ c d : ClassSite,
    c.Indexed [strangerSource, nestSource "B"] ∧ d.DeclaredIn c ∧
      d.unit ∈ indexedUnits [strangerSource, nestSource "B"] ∧ d.unit.name ≠ "" ∧
      (resolver [strangerSource, nestSource "B"]).LooksUp c.unit runOnNode (.simple "node")
        d.unit.name ∧
      (resolver [strangerSource, nestSource "B"]).resolve? c.unit runOnNode
        ⟨"go", some "node", 1⟩ = some d.unit := by
  have hunits := indexedUnits_stranger
  have hsource : nestSource "B" ∈ [strangerSource, nestSource "B"] := by simp
  obtain ⟨c, d, hc, hin, hcunit, hdunit⟩ := exists_nestSite hsource (by simp [hunits])
  have hd : d.unit ∈ indexedUnits [strangerSource, nestSource "B"] := by simp [hunits, hdunit]
  have hname : d.unit.name ≠ "" := by
    rw [hdunit]
    decide
  have hlooksUp : (resolver [strangerSource, nestSource "B"]).LooksUp c.unit runOnNode
      (.simple "node") d.unit.name := by
    rw [hcunit, hdunit, resolver, hunits]
    exact .ofVariable (by decide +kernel)
  obtain ⟨v, -, hiff, -, hresolve⟩ := (nested_iff_first hin hd hname).2 _ _ hlooksUp
  have hfirst : d.unit.IsFirst (indexedUnits [strangerSource, nestSource "B"]) fun w =>
      w.IsNamed d.unit.name ∧ w.package = c.unit.package := by
    rw [hunits, hcunit, hdunit]
    exact ⟨[strangerUnit, outerUnit "B"], [], rfl, by decide, by decide⟩
  refine ⟨c, d, hc, hin, hd, hname, hlooksUp, ?_⟩
  rw [resolver, hresolve _ ofText_node, hiff.2 hfirst, hdunit, hunits]
  decide +kernel

/-- **A call goes to the nested class of another class**: in `p.B` the name `Node` of its nested
class is read as `p.A.Node`, and the call is counted there. -/
theorem nested_class_missed : ∃ c d : ClassSite,
    c.Indexed [nestSource "A", nestSource "B"] ∧ d.DeclaredIn c ∧
      d.unit ∈ indexedUnits [nestSource "A", nestSource "B"] ∧
      (resolver [nestSource "A", nestSource "B"]).LooksUp c.unit runOnNode (.simple "node")
        d.unit.name ∧
      (resolver [nestSource "A", nestSource "B"]).start? c.unit runOnNode (.simple "node") =
        some (innerUnit "A") ∧
      d.unit = innerUnit "B" ∧
      (CallGraph.ofUnits (indexedUnits [nestSource "A", nestSource "B"])).calls =
        [⟨outerUnit "A", innerUnit "A", 1⟩, ⟨outerUnit "B", innerUnit "A", 1⟩] := by
  have hunits := indexedUnits_nests
  have hsource : nestSource "B" ∈ [nestSource "A", nestSource "B"] := by simp
  obtain ⟨c, d, hc, hin, hcunit, hdunit⟩ := exists_nestSite hsource (by simp [hunits])
  refine ⟨c, d, hc, hin, by simp [hunits, hdunit], ?_, ?_, hdunit, ?_⟩
  · rw [hcunit, hdunit, resolver, hunits]
    exact .ofVariable (by decide +kernel)
  · rw [hcunit, resolver, hunits]
    decide +kernel
  · rw [hunits]
    decide +kernel

end Cohesion.Java
