/-
Where layout does not show.

A name in a syntax tree is one word, and so is the name of a type whatever stands around it: type
arguments, brackets, and what comes before a dot do not count.  So these are the same in two
layouts.  The name of a package and what a receiver says are told from texts of several tokens, and
a superclass is what comes first in its clause.  In a tidy tree nothing stands inside these names,
and no comment or annotation before the superclass: then they are the same, too.

Main definitions:
* `Node.Regular`, `Node.IsRegular` — what is known about names and types in syntax trees;
* `Node.Tidy`, `Node.IsTidy` — trees in which layout does not get into names.

Main results:
* `Node.Respells.typeName?_eq` — types have the same name in two layouts;
* `NodesAlike.agree` — **two layouts agree on what is told from their trees**.
-/
import Cohesion.Proofs.Java.Alike
import Cohesion.Proofs.Java.Sites

set_option autoImplicit false

namespace Cohesion.Java

/-! ### Names and types -/

/-- What is known about the names and types in a node. -/
structure Node.Regular (n : Node) : Prop where
  /-- A name is one word. -/
  name : n.role = some .name → isWord n.text = true
  /-- So is the simple name of a type. -/
  typeIdentifier : n.kind = .typeIdentifier → isWord n.text = true
  /-- What is declared has a type that is a type node or one word, and so have the elements of an
  array. -/
  type : n.role = some .type ∨ n.role = some .element → namesType n = true
  /-- A type with arguments starts with such a type. -/
  generic : n.kind = .genericType →
    ∀ c ∈ n.children.head?, c.kind ≠ .comment ∧ namesType c = true
  /-- A type with dots ends with a simple name. -/
  dotted : n.kind = .scopedTypeIdentifier →
    ∀ c ∈ n.children.getLast?, c.kind ≠ .comment ∧ isWord c.text = true

/-- A tree in which this is known of every node. -/
def Node.IsRegular (program : Node) : Prop := ∀ s ∈ program.sites, s.node.Regular

/-- A node in which layout does not get into names. -/
structure Node.Tidy (n : Node) : Prop where
  /-- Nothing stands inside a receiver that is a name with dots. -/
  object : n.role = some .object → SpellsName n.text → isUnspaced n.text = true
  /-- A superclass is named without comments and annotations before the name. -/
  superclass : n.role = some .superclass →
    ∀ c ∈ n.children.head?, c.kind ≠ .comment ∧ namesType c = true
  /-- Nothing stands inside the name of the package. -/
  package : n.kind = .packageDeclaration →
    ∀ c ∈ n.children.find? isNameNode, isUnspaced c.text = true

/-- A tree in which layout does not get into names. -/
def Node.IsTidy (program : Node) : Prop := ∀ s ∈ program.sites, s.node.Tidy

instance (n : Node) : Decidable n.Regular :=
  decidable_of_iff ((n.role = some .name → isWord n.text = true) ∧
      (n.kind = .typeIdentifier → isWord n.text = true) ∧
      (n.role = some .type ∨ n.role = some .element → namesType n = true) ∧
      (n.kind = .genericType →
        ∀ c ∈ n.children.head?, c.kind ≠ .comment ∧ namesType c = true) ∧
      (n.kind = .scopedTypeIdentifier →
        ∀ c ∈ n.children.getLast?, c.kind ≠ .comment ∧ isWord c.text = true))
    ⟨fun ⟨hname, hidentifier, htype, hgeneric, hdotted⟩ =>
      ⟨hname, hidentifier, htype, hgeneric, hdotted⟩,
    fun h => ⟨h.name, h.typeIdentifier, h.type, h.generic, h.dotted⟩⟩

instance (program : Node) : Decidable program.IsRegular :=
  inferInstanceAs (Decidable (∀ s ∈ program.sites, s.node.Regular))

/-- A node in which nothing stands inside a receiver, whether it is a name or not, or inside a
package, and no comment or annotation before a superclass. -/
def Node.isUncluttered (n : Node) : Bool :=
  (n.role != some .object || isUnspaced n.text) &&
    (n.role != some .superclass ||
      n.children.head?.all fun c => c.kind != .comment && namesType c) &&
    (n.kind != .packageDeclaration || (n.children.find? isNameNode).all (isUnspaced ·.text))

theorem Node.isTidy_of_isUncluttered {program : Node}
    (h : program.sites.all (·.node.isUncluttered) = true) : program.IsTidy := by
  intro s hs
  have hn := List.all_eq_true.1 h s hs
  simp only [isUncluttered, Bool.and_eq_true, Bool.or_eq_true, bne_iff_ne, Option.all_eq_true,
    ← imp_iff_not_or] at hn
  exact ⟨fun hrole _ => hn.1.1 hrole, hn.1.2, hn.2⟩

/-! ### Names of types -/

theorem firstTypeName?_eq (ns : List Node) : firstTypeName? ns = ns.head?.bind Node.typeName? := by
  cases ns with
  | nil => rw [firstTypeName?]; rfl
  | cons n ns => rw [firstTypeName?]; rfl

theorem elementTypeName?_eq (ns : List Node) :
    elementTypeName? ns = (ns.find? (·.role == some .element)).bind Node.typeName? := by
  induction ns with
  | nil => rw [elementTypeName?]; rfl
  | cons n ns ih =>
      obtain ⟨role, _, _, _, _, _⟩ := n
      rw [elementTypeName?, List.find?_cons]
      cases role == some .element with
      | true => rfl
      | false => exact ih

/-- Of a type with arguments the name is that of the type that comes first. -/
theorem typeName?_of_generic {n : Node} (h : n.kind = .genericType) :
    n.typeName? = n.children.head?.bind Node.typeName? := by
  obtain ⟨_, _, _, _, _, _⟩ := n
  subst h
  rw [Node.typeName?, firstTypeName?_eq]

/-- Of an array the name is that of the type of its elements. -/
theorem typeName?_of_array {n : Node} (h : n.kind = .arrayType) :
    n.typeName? = (n.children.find? (·.role == some .element)).bind Node.typeName? := by
  obtain ⟨_, _, _, _, _, _⟩ := n
  subst h
  rw [Node.typeName?, elementTypeName?_eq]

/-- Of a type with dots the name is the text of its last part. -/
theorem typeName?_of_dotted {n : Node} (h : n.kind = .scopedTypeIdentifier) :
    n.typeName? = some ((n.children.getLast?.map (·.string)).getD "") := by
  obtain ⟨_, _, _, _, _, _⟩ := n
  subst h
  rw [Node.typeName?]

/-- The text of a node is its name as a type, if the name is not told from its children. -/
theorem typeName?_eq_string {n : Node} (hgeneric : n.kind ≠ .genericType)
    (harray : n.kind ≠ .arrayType) (hscoped : n.kind ≠ .scopedTypeIdentifier) :
    n.typeName? = some n.string := by
  obtain ⟨_, kind, _, _, _, _⟩ := n
  cases kind
  case genericType => exact absurd rfl hgeneric
  case arrayType => exact absurd rfl harray
  case scopedTypeIdentifier => exact absurd rfl hscoped
  all_goals simp [Node.typeName?, Node.string]

section

variable {tidy : Prop}

/-- Two layouts agree on the type that comes first. -/
theorem NodesAlike.firstType_eq {ns ns' : List Node} (h : NodesAlike (Node.Agree tidy) ns ns')
    (hl : ∀ c ∈ ns.head?, c.kind ≠ .comment ∧ namesType c = true)
    (hr : ∀ c ∈ ns'.head?, c.kind ≠ .comment ∧ namesType c = true) :
    ns.head?.bind Node.typeName? = ns'.head?.bind Node.typeName? := by
  have hfirst := h.head? (fun c hc => (hl c hc).1) fun c hc => (hr c hc).1
  generalize ns.head? = first, ns'.head? = first' at hl hfirst
  cases hfirst with
  | none => rfl
  | some hc => exact hc.related.typeName (hl _ rfl).2

namespace Node.Respells

variable {n n' : Node} (h : n.Respells n') (hl : n.Regular) (hr : n'.Regular)
  (hchildren : NodesAlike (Node.Agree tidy) n.children n'.children)

include h hl hr hchildren

/-- **Types have the same name in two layouts.** -/
theorem typeName?_eq (htype : namesType n = true) : n.typeName? = n'.typeName? := by
  have hkind := h.kind
  by_cases hgeneric : n.kind = .genericType
  · -- arguments do not count
    rw [typeName?_of_generic hgeneric, typeName?_of_generic (hkind ▸ hgeneric)]
    exact hchildren.firstType_eq (hl.generic hgeneric) (hr.generic (hkind ▸ hgeneric))
  by_cases harray : n.kind = .arrayType
  · -- brackets do not count
    rw [typeName?_of_array harray, typeName?_of_array (hkind ▸ harray)]
    exact bind_eq_of_rel (hchildren.find? (discerns_role .element))
      fun c c' hc => hc.1.related.type (Or.inr (by simpa using hc.2))
  by_cases hdotted : n.kind = .scopedTypeIdentifier
  · -- what comes before the last dot does not count
    have hl := hl.dotted hdotted
    have hr := hr.dotted (hkind ▸ hdotted)
    have hlast := hchildren.getLast? (fun c hc => (hl c hc).1) fun c hc => (hr c hc).1
    rw [typeName?_of_dotted hdotted, typeName?_of_dotted (hkind ▸ hdotted)]
    generalize n.children.getLast? = last, n'.children.getLast? = last' at hl hlast
    cases hlast with
    | none => rfl
    | some hc =>
        have htext := hc.related.text.eq_of_isWord (hl _ rfl).2
        rw [Option.map_some, Option.map_some, Node.string, Node.string, htext]
  · -- the name is the text
    have hword : isWord n.text = true := by
      by_cases hidentifier : n.kind = .typeIdentifier
      · exact hl.typeIdentifier hidentifier
      · simpa [namesType, isTypeNode, hgeneric, harray, hdotted, hidentifier] using htype
    rw [typeName?_eq_string hgeneric harray hdotted,
      typeName?_eq_string (hkind ▸ hgeneric) (hkind ▸ harray) (hkind ▸ hdotted), Node.string,
      Node.string, h.text.eq_of_isWord hword]

/-- Two layouts agree on what is told from their nodes. -/
theorem agree (htidy : tidy → n.Tidy ∧ n'.Tidy) : n.Agree tidy n' where
  toRespells := h
  name hrole := h.text.eq_of_isWord (hl.name hrole)
  type hrole := h.typeName?_eq hl hr hchildren (hl.type hrole)
  typeName := h.typeName?_eq hl hr hchildren
  object ht hrole :=
    h.text.receiver_eq ((htidy ht).1.object hrole) ((htidy ht).2.object (h.role ▸ hrole))
  superclass ht hrole :=
    hchildren.firstType_eq ((htidy ht).1.superclass hrole)
      ((htidy ht).2.superclass (h.role ▸ hrole))
  package ht hkind := by
    have hl := (htidy ht).1.package hkind
    have hr := (htidy ht).2.package (h.kind ▸ hkind)
    have hfirst := hchildren.find? discerns_nameNode
    generalize n.children.find? isNameNode = name, n'.children.find? isNameNode = name' at *
    cases hfirst with
    | none => rfl
    | some hc =>
        have htext := hc.1.related.text.eq_of_isUnspaced (hl _ rfl) (hr _ rfl)
        rw [Option.map_some, Option.map_some, Node.string, Node.string, htext]

end Node.Respells

/-! ### Trees -/

/-- A node about which all is known that its layout needs. -/
structure Node.Settled (tidy : Prop) (n : Node) : Prop where
  /-- The names and types in it. -/
  regular : n.Regular
  /-- Layout does not get into names. -/
  tidy : tidy → n.Tidy

mutual

/-- Two layouts of a tree agree. -/
theorem Node.Alike.agree {n n' : Node} (h : n.Alike Node.Respells n') (hl : n.Settled tidy)
    (hr : n'.Settled tidy) (hls : ∀ s ∈ n.sites, s.node.Settled tidy)
    (hrs : ∀ s ∈ n'.sites, s.node.Settled tidy) : n.Alike (Node.Agree tidy) n' := by
  rw [Node.sites_eq] at hls hrs
  match h with
  | .intro hrespells hchildren =>
      have hagree := NodesAlike.agree hchildren hls hrs
      exact .intro (hrespells.agree hl.regular hr.regular hagree fun ht => ⟨hl.tidy ht, hr.tidy ht⟩)
        hagree

/-- **Two layouts agree on what is told from their trees.** -/
theorem NodesAlike.agree {ns ns' : List Node} (h : NodesAlike Node.Respells ns ns') {i j : Nat}
    (hl : ∀ s ∈ sitesFrom i ns, s.node.Settled tidy)
    (hr : ∀ s ∈ sitesFrom j ns', s.node.Settled tidy) : NodesAlike (Node.Agree tidy) ns ns' := by
  match h with
  | .nil => exact .nil
  | .cons hn hns =>
      obtain ⟨hn₁, hbelow₁, hrest₁⟩ := forall_sitesFrom_cons.1 hl
      obtain ⟨hn₂, hbelow₂, hrest₂⟩ := forall_sitesFrom_cons.1 hr
      exact .cons (hn.agree hn₁ hn₂ hbelow₁ hbelow₂) (NodesAlike.agree hns hrest₁ hrest₂)
  | .left hc hns => exact .left hc (NodesAlike.agree hns (forall_sitesFrom_cons.1 hl).2.2 hr)
  | .right hc hns => exact .right hc (NodesAlike.agree hns hl (forall_sitesFrom_cons.1 hr).2.2)

end

end

end Cohesion.Java
