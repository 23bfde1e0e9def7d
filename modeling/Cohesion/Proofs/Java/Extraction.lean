/-
Which classes of a source become units.

A class becomes a unit exactly if there are only types and their bodies around it, however these are
nested; a class in a method or in the body of a constant does not.  The units come in the order of
the classes in the tree.  The qualified name of a unit has the names of all types around its class,
units or not, and its methods and fields are those that stand directly in its own body.

Main definitions:
* `Site.isUnit`, `Node.unitSites` — the classes that become units;
* `Node.memberSites` — what stands directly in the body of a type;
* `Site.Makes` — what the unit of a class is made of;
* `ListsClasses` — the units of a tree.

Main results:
* `unitsOfAll_eq` — the units of a tree are made of the classes that only types and bodies surround;
* `Node.memberSites_nodes` — the members of a type are what stands in its body;
* `programUnits_listsClasses` — **every class around which there are only types and bodies becomes
  one unit, with its own members, and nothing else does**.
-/
import Cohesion.Indexing.Language
import Cohesion.Proofs.Java.Bodies
import Cohesion.Proofs.Java.Declarations
import Cohesion.Proofs.Java.GrammarBodies
import Cohesion.Proofs.Java.Units

set_option autoImplicit false

namespace Cohesion.Java

/-! ### Classes and members -/

/-- A class around which there are only types and bodies. -/
def Site.isUnit (s : Site) : Bool := s.isOpen && s.node.kind == .classDeclaration

/-- The names of the types around a node, from the outside in. -/
def Site.typeNames (s : Site) : List String :=
  (s.around.filter fun n => isType n.kind).map fun n => n.childText .name

/-- The place of the body of a node, if it has one. -/
def Site.bodyPlace? (s : Site) : Option (List Nat) :=
  (s.node.children.findIdx? (·.role == some .body)).map fun i => s.place ++ [i]

/-- A node stands directly in the body of another one. -/
def Site.isMemberOf (t s : Site) : Bool := s.bodyPlace?.any t.isChildAt

/-- The classes in a tree around which there are only types and bodies, in the order of the tree. -/
def Node.unitSites (program : Node) : List Site := program.sites.filter Site.isUnit

/-- What stands directly in the body of a node, in the order of the tree. -/
def Node.memberSites (program : Node) (s : Site) : List Site :=
  program.sites.filter (·.isMemberOf s)

/-- The methods among them. -/
def Node.methodSites (program : Node) (s : Site) : List Site :=
  (program.memberSites s).filter (·.node.kind == .methodDeclaration)

namespace Site

@[simp]
theorem isUnit_at (i : Nat) (n : Node) :
    (Site.at i n).isUnit = (n.kind == .classDeclaration) := rfl

@[simp]
theorem isUnit_below_at (i : Nat) (n : Node) (u : Site) :
    ((Site.at i n).below u).isUnit = (opens n.kind && u.isUnit) :=
  Bool.and_assoc _ _ _

@[simp]
theorem typeNames_at (i : Nat) (n : Node) : (Site.at i n).typeNames = [] := rfl

end Site

/-! ### Surroundings -/

/-- The surroundings of what is inside some types. -/
def Surroundings.within (s : Surroundings) (names : List String) : Surroundings :=
  { s with enclosing := s.enclosing ++ names }

/-- The surroundings of what is inside a type or a body. -/
def Surroundings.insideOf (s : Surroundings) (n : Node) : Surroundings :=
  if isType n.kind then s.inside (n.childText .name) else s

@[simp]
theorem Surroundings.within_nil (s : Surroundings) : s.within [] = s := by
  simp [within]

theorem Surroundings.within_insideOf (s : Surroundings) (i : Nat) (n : Node) (u : Site) :
    (s.insideOf n).within u.typeNames = s.within ((Site.at i n).below u).typeNames := by
  unfold insideOf
  split <;> rename_i htype <;>
    simp [Site.typeNames, within, inside, htype]

/-! ### Units -/

theorem units_of_isBody {n : Node} (h : isBody n.kind = true) (s : Surroundings) :
    n.units s = unitsOfAll s n.children := by
  have htype := isType_of_isBody h
  obtain ⟨hclass, hcontainer⟩ := Bool.or_eq_false_iff.1 htype
  rw [units_eq, hclass, hcontainer, h]
  rfl

theorem units_of_not_opens {n : Node} (h : opens n.kind = false) (s : Surroundings) :
    n.units s = [] := by
  obtain ⟨htype, hbody⟩ := Bool.or_eq_false_iff.1 h
  obtain ⟨hclass, hcontainer⟩ := Bool.or_eq_false_iff.1 htype
  rw [units_eq, hclass, hcontainer, hbody]
  rfl

theorem unitsOfAll_eq_nil {ns : List Node} (h : ∀ n ∈ ns, opens n.kind = false)
    (s : Surroundings) : unitsOfAll s ns = [] := by
  induction ns with
  | nil => rw [unitsOfAll]
  | cons n ns ih =>
      rw [List.forall_mem_cons] at h
      rw [unitsOfAll, units_of_not_opens h.1, ih h.2, List.append_nil]

/-- The units in the one body of a type are all that are found in it. -/
theorem unitsOfBody_eq {ns : List Node}
    (hkind : ∀ c ∈ ns, c.role = some .body → isBody c.kind = true)
    (honly : ∀ c ∈ ns, opens c.kind = true → c.role = some .body)
    (honce : (ns.filter (·.role == some .body)).length ≤ 1) (s : Surroundings) :
    unitsOfBody s ns = unitsOfAll s ns := by
  induction ns with
  | nil => rw [unitsOfBody, unitsOfAll]
  | cons n ns ih =>
      rw [List.forall_mem_cons] at hkind honly
      rw [unitsOfBody_cons, unitsOfAll]
      split
      · rename_i hrole
        have hnone : ∀ c ∈ ns, opens c.kind = false := by
          intro c hc
          rw [List.filter_cons, if_pos hrole, List.length_cons] at honce
          have hempty := List.length_eq_zero_iff.1 (Nat.le_zero.1 (Nat.le_of_succ_le_succ honce))
          refine Bool.eq_false_iff.2 fun hopens => List.filter_eq_nil_iff.1 hempty c hc ?_
          exact beq_iff_eq.2 (honly.2 c hc hopens)
        rw [units_of_isBody (hkind.1 (eq_of_beq hrole)), unitsOfAll_eq_nil hnone, List.append_nil]
      · rename_i hrole
        have hclosed : opens n.kind = false :=
          Bool.eq_false_iff.2 fun hopens => hrole (beq_iff_eq.2 (honly.1 hopens))
        rw [List.filter_cons, if_neg hrole] at honce
        rw [units_of_not_opens hclosed, List.nil_append, ih hkind.2 honly.2 honce]

/-- The units of a node: its own, if it is a class, and those that are found in it. -/
theorem Node.Shaped.units_eq {n : Node} (h : n.Shaped) (s : Surroundings) :
    n.units s = (if n.kind == .classDeclaration then [n.unit s] else []) ++
      if opens n.kind then unitsOfAll (s.insideOf n) n.children else [] := by
  cases htype : isType n.kind with
  | true =>
      have hbody := h.type htype
      have hunits := unitsOfBody_eq hbody.kind hbody.only hbody.once (s.insideOf n)
      have hopens : opens n.kind = true := by rw [opens, htype, Bool.true_or]
      rw [Java.units_eq, hopens, if_pos rfl, ← hunits, Surroundings.insideOf, if_pos htype]
      cases hclass : n.kind == .classDeclaration with
      | true => rfl
      | false =>
          have hcontainer : isContainer n.kind = true := by
            rwa [isType, hclass, Bool.false_or] at htype
          simp [hcontainer]
  | false =>
      obtain ⟨hclass, -⟩ := Bool.or_eq_false_iff.1 htype
      rw [hclass, if_neg Bool.false_ne_true, List.nil_append, opens, htype, Bool.false_or,
        Surroundings.insideOf, htype, if_neg Bool.false_ne_true]
      split
      · rename_i hbody
        exact units_of_isBody hbody s
      · rename_i hbody
        rw [units_of_not_opens]
        rw [opens, htype, Bool.false_or]
        exact eq_false_of_ne_true hbody

/-- **The units of a list of nodes are those of the classes around which there are only types and
bodies**, in the order of the nodes. -/
theorem unitsOfAll_eq (ns : List Node) (i : Nat)
    (h : ∀ t ∈ sitesFrom i ns, t.isOpen = true → t.node.Shaped) (s : Surroundings) :
    unitsOfAll s ns =
      ((sitesFrom i ns).filter Site.isUnit).map fun t => t.node.unit (s.within t.typeNames) := by
  -- by induction down and along the tree: what surrounds the nodes of a body grows by a name
  induction ns using Node.forest_induction generalizing i s with
  | nil => rw [unitsOfAll, sitesFrom, List.filter_nil, List.map_nil]
  | cons n rest ihn ihrest =>
      obtain ⟨hfirst, hbelow, hrest⟩ := forall_sitesFrom_cons.1 h
      have hn : n.Shaped := hfirst rfl
      have hinside : (if opens n.kind then unitsOfAll (s.insideOf n) n.children else []) =
          ((n.sites.map (Site.at i n).below).filter Site.isUnit).map fun t =>
            t.node.unit (s.within t.typeNames) := by
        rw [List.filter_map, List.map_map]
        split
        · rename_i hopens
          have hchildren : ∀ t ∈ sitesFrom 0 n.children, t.isOpen = true → t.node.Shaped := by
            intro t ht hopen
            refine hbelow t (by rwa [n.sites_eq]) ?_
            rw [Site.isOpen_below_at, hopens, hopen]
            rfl
          rw [ihn 0 hchildren, n.sites_eq]
          have hfilter : Site.isUnit ∘ (Site.at i n).below = Site.isUnit := by
            funext u
            simp [hopens]
          rw [hfilter]
          refine List.map_congr_left fun u _ => ?_
          rw [Surroundings.within_insideOf s i n u]
          rfl
        · rename_i hopens
          have hfilter : Site.isUnit ∘ (Site.at i n).below = fun _ => false := by
            funext u
            simp [hopens]
          rw [hfilter, List.filter_false]
          rfl
      rw [unitsOfAll, hn.units_eq, hinside, sitesFrom_cons, List.filter_cons,
        List.filter_append, ihrest (i + 1) hrest, Site.isUnit_at]
      split <;> simp

/-! ### Members -/

theorem Site.isMemberOf_iff {t s : Site} : t.isMemberOf s = true ↔
    ∃ i, s.bodyPlace? = some (s.place ++ [i]) ∧ t.place.dropLast = s.place ++ [i] := by
  simp [isMemberOf, bodyPlace?, isChildAt, Option.any_map, Option.any_eq_true]

/-- A node is a member of at most one other node. -/
theorem Site.eq_of_isMemberOf {program : Node} {s s' t : Site} (hs : s ∈ program.sites)
    (hs' : s' ∈ program.sites) (h : t.isMemberOf s = true) (h' : t.isMemberOf s' = true) :
    s = s' := by
  obtain ⟨i, -, hplace⟩ := isMemberOf_iff.1 h
  obtain ⟨j, -, hplace'⟩ := isMemberOf_iff.1 h'
  have heq : s.place ++ [i] = s'.place ++ [j] := hplace.symm.trans hplace'
  exact Node.eq_of_place_eq hs hs' (List.append_inj_left' heq rfl)

/-- A node has no body, or its body stands at its place. -/
theorem Node.exists_body {program : Node} {s : Site} (hs : s ∈ program.sites) :
    s.bodyPlace? = none ∧ s.node.child? .body = none ∨
      ∃ i b, s.bodyPlace? = some (s.place ++ [i]) ∧ s.node.child? .body = some b ∧
        s.below (.at i b) ∈ program.sites := by
  rw [Site.bodyPlace?, child?, List.find?_eq_bind_findIdx?_getElem?]
  cases hfind : s.node.children.findIdx? (·.role == some .body) with
  | none => exact Or.inl ⟨rfl, rfl⟩
  | some i =>
      obtain ⟨hi, -⟩ := List.findIdx?_eq_some_iff_getElem.1 hfind
      have hbody := List.getElem?_eq_getElem hi
      exact Or.inr ⟨i, _, rfl, hbody,
        below_mem hs (mem_sites_iff_child.2 ⟨i, _, hbody, Or.inl rfl⟩)⟩

/-- **The members of a type are what stands in its body.** -/
theorem Node.memberSites_nodes {program : Node} {s : Site} (hs : s ∈ program.sites) :
    (program.memberSites s).map (·.node) = s.node.members := by
  rw [memberSites, members]
  rcases exists_body hs with ⟨hplace, hbody⟩ | ⟨i, b, hplace, hbody, hmem⟩
  · have hfilter : (fun t : Site => t.isMemberOf s) = fun _ => false := by
      funext t
      rw [Site.isMemberOf, hplace]
      rfl
    rw [hfilter, hbody, List.filter_false]
    rfl
  · have hfilter : (fun t : Site => t.isMemberOf s) = fun t => t.isChildAt (s.place ++ [i]) := by
      funext t
      rw [Site.isMemberOf, hplace]
      rfl
    rw [hfilter, hbody]
    exact filter_children hmem

/-! ### The units of a tree -/

/-- What the unit of a class is made of. -/
structure Site.Makes (program : Node) (s : Site) (u : CodeUnit) : Prop where
  /-- Its name is that of the class. -/
  name : u.name = s.node.childText .name
  /-- Its package is that of the source. -/
  package : u.package = program.package?
  /-- The package, the types around the class and the class itself make up its qualified name. -/
  qualified : u.qualified = ".".intercalate
    (program.package?.toList.filter (· != "") ++ s.typeNames ++ [s.node.childText .name])
  /-- Its methods are the methods that stand directly in the body. -/
  methods : u.methods = (program.methodSites s).map (·.node.method)
  /-- Its fields are those that are declared directly in the body. -/
  fields : u.fields =
    ((program.memberSites s).filter (·.node.kind == .fieldDeclaration)).flatMap fun t =>
      (t.node.childrenAs .declarator).map fun d =>
        ⟨d.childText .name, t.node.declaredType?.getD ""⟩

/-- The units of a tree. -/
structure ListsClasses (program : Node) (units : List CodeUnit) : Prop where
  /-- There is one unit for each of some classes, made from it. -/
  made : List.Forall₂ (Site.Makes program) program.unitSites units
  /-- These are the classes that are reached only through types and bodies. -/
  reached : ∀ s, s ∈ program.unitSites ↔ program.Leads s ∧ s.node.kind = .classDeclaration ∧
    ∀ n ∈ s.around, isType n.kind = true ∨ isBody n.kind = true
  /-- They come in the order of the tree. -/
  order : program.unitSites.Pairwise fun s t => s.place < t.place
  /-- None of them has a member of another one. -/
  members : ∀ s ∈ program.unitSites, ∀ s' ∈ program.unitSites,
    ∀ t ∈ program.memberSites s, t ∈ program.memberSites s' → s = s'

theorem Surroundings.qualified_eq (s : Surroundings) (name : String) :
    s.qualified name =
      ".".intercalate (s.package.toList.filter (· != "") ++ s.enclosing ++ [name]) := by
  rw [qualified]
  cases s.package with
  | none => rfl
  | some p => by_cases hp : p = "" <;> simp [hp]

theorem Node.members_fields (n : Node) : n.members.flatMap Node.fields =
    (n.members.filter (·.kind == .fieldDeclaration)).flatMap fun m =>
      (m.childrenAs .declarator).map fun d => ⟨d.childText .name, m.declaredType?.getD ""⟩ := by
  induction n.members with
  | nil => rfl
  | cons m ms ih =>
      rw [List.flatMap_cons, ih, List.filter_cons, Node.fields]
      split <;> rfl

/-- A class makes its unit. -/
theorem Site.makes {program : Node} {s : Site} (hs : s ∈ program.sites) (file : Option Path) :
    s.Makes program
      (s.node.unit (Surroundings.within ⟨file, program.package?, []⟩ s.typeNames)) where
  name := rfl
  package := rfl
  qualified := (ClassSite.qualified_unit ⟨_, s.node⟩).trans (Surroundings.qualified_eq _ _)
  methods := by
    have hmethods : (s.node.unit (Surroundings.within ⟨file, program.package?, []⟩
        s.typeNames)).methods =
          (s.node.members.filter (·.kind == .methodDeclaration)).map Node.method := rfl
    rw [hmethods, ← Node.memberSites_nodes hs, List.filter_map, List.map_map]
    rfl
  fields := by
    have hfields : (s.node.unit (Surroundings.within ⟨file, program.package?, []⟩
        s.typeNames)).fields = s.node.members.flatMap Node.fields := rfl
    rw [hfields, Node.members_fields, ← Node.memberSites_nodes hs, List.filter_map,
      List.flatMap_map]
    rfl

theorem Node.programUnits_eq {program : Node} (h : program.HasBodies) (file : Option Path) :
    program.programUnits file = program.unitSites.map fun s =>
      s.node.unit (Surroundings.within ⟨file, program.package?, []⟩ s.typeNames) := by
  rw [HasBodies, program.sites_eq] at h
  rw [programUnits, unitsOfAll_eq program.children 0 h, unitSites, program.sites_eq]

/-- **Every class around which there are only types and bodies becomes one unit, with its own
members, and nothing else does**, in every tree in which the bodies are in place. -/
theorem programUnits_listsClasses {program : Node} (h : program.HasBodies) (file : Option Path) :
    ListsClasses program (program.programUnits file) := by
  have hmem : ∀ s ∈ program.unitSites, s ∈ program.sites := fun s hs => List.mem_of_mem_filter hs
  refine ⟨?_, fun s => ?_, program.sites_sorted.filter _, fun s hs s' hs' t ht ht' => ?_⟩
  · rw [Node.programUnits_eq h file, List.forall₂_map_right_iff, List.forall₂_same]
    exact fun s hs => Site.makes (hmem s hs) file
  · rw [Node.unitSites, List.mem_filter, Node.mem_sites_iff, Site.isUnit, Bool.and_eq_true,
      Site.isOpen_iff, beq_iff_eq, and_comm (b := s.node.kind = .classDeclaration)]
  · exact Site.eq_of_isMemberOf (hmem s hs) (hmem s' hs') (List.mem_filter.1 ht).2
      (List.mem_filter.1 ht').2

/-- Classes in an interface, in a class, in an enumeration and in a record; one in a constant and
one in a method. -/
def nestedSource : List Char :=
  ['\n'].intercalate <| List.map String.toList
    ["package p.q;", "interface I \x7b class A \x7b",
      "  enum E \x7b X \x7b class InConstant \x7b \x7d \x7d;",
      "    class B \x7b int f, g; void m() \x7b class InMethod \x7b \x7d \x7d \x7d \x7d \x7d \x7d",
      "record R(int n) \x7b class C \x7b \x7d \x7d"]

/-- The classes in types become units, with the names of all types around them. -/
theorem programUnits_listsClasses_nested : (Node.ofText nestedSource).HasBodies ∧
    ListsClasses (Node.ofText nestedSource) (extractUnits none nestedSource) ∧
    (extractUnits none nestedSource).map (fun u =>
      (u.qualified, u.fields.map (·.name), u.methods.map (·.name))) =
        [("p.q.I.A", [], []), ("p.q.I.A.E.B", ["f", "g"], ["m"]), ("p.q.R.C", [], [])] := by
  have hbodies := Node.hasBodies_ofText nestedSource
  refine ⟨hbodies, programUnits_listsClasses hbodies none, ?_⟩
  -- the kernel reads the characters of a list much faster than those of a literal
  unfold nestedSource
  simp only [List.map_cons, List.map_nil]
  repeat rw [String.toList_ofList]
  decide +kernel

end Cohesion.Java
