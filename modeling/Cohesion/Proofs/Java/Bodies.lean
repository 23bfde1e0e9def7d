/-
The bodies of types and methods in syntax trees.

Classes are found by going down through types and their bodies: a type has at most one body, it is a
node of its own kind, and nothing else in the type is a type or a body.  The body of a method is a
block.  What is inside other nodes does not matter for this.

Main definitions:
* `isType`, `opens` — the kinds of nodes that lead to classes;
* `Node.Shaped` — what is known about the bodies of a node;
* `Node.HasBodies` — **trees in which this is known wherever types and bodies lead**.

Main results:
* `Node.hasBodies_iff` — what is known of a tree is known of its children and below them.
-/
import Cohesion.Java.Classes
import Cohesion.Proofs.Java.Sites

set_option autoImplicit false

namespace Cohesion.Java

/-! ### Types and bodies -/

/-- The declaration of a class, an interface, an enumeration or a record. -/
def isType (kind : Kind) : Bool := kind == .classDeclaration || isContainer kind

/-- A type or a body: a node that leads to the classes in it. -/
def opens (kind : Kind) : Bool := isType kind || isBody kind

/-- A node around which there are only types and bodies. -/
def Site.isOpen (s : Site) : Bool := s.around.all fun n => opens n.kind

namespace Site

theorem isOpen_iff {s : Site} :
    s.isOpen = true ↔ ∀ n ∈ s.around, isType n.kind = true ∨ isBody n.kind = true := by
  simp [isOpen, opens]

@[simp]
theorem isOpen_below_at (i : Nat) (n : Node) (u : Site) :
    ((Site.at i n).below u).isOpen = (opens n.kind && u.isOpen) := rfl

end Site

/-- What is known about a type. -/
structure Node.HasBody (n : Node) : Prop where
  /-- Its body is a node of its own kind. -/
  kind : ∀ c ∈ n.children, c.role = some .body → isBody c.kind = true
  /-- Nothing but the body leads to classes. -/
  only : ∀ c ∈ n.children, opens c.kind = true → c.role = some .body
  /-- There is at most one body. -/
  once : (n.childrenAs .body).length ≤ 1

/-- What is known about the bodies of a node. -/
structure Node.Shaped (n : Node) : Prop where
  /-- The body of a type. -/
  type : isType n.kind = true → n.HasBody
  /-- The body of a method is a block. -/
  method : n.kind = .methodDeclaration → ∀ c ∈ n.children, c.role = some .body → c.kind = .block

/-- Trees in which this is known wherever types and bodies lead. -/
def Node.HasBodies (program : Node) : Prop :=
  ∀ t ∈ program.sites, t.isOpen = true → t.node.Shaped

/-- A node about whose bodies and those in it this is known. -/
structure Node.Sound (n : Node) : Prop where
  /-- The node itself. -/
  shaped : n.Shaped
  /-- What it leads to. -/
  inside : opens n.kind = true → n.HasBodies

namespace Node

theorem hasBodies_iff {n : Node} : n.HasBodies ↔ ∀ c ∈ n.children, c.Sound := by
  constructor
  · intro h c hc
    obtain ⟨i, hi⟩ := List.mem_iff_getElem?.1 hc
    refine ⟨h (.at i c) (mem_sites_iff_child.2 ⟨i, c, hi, Or.inl rfl⟩) rfl, ?_⟩
    intro hopens u hu hopen
    refine h ((Site.at i c).below u) (mem_sites_iff_child.2 ⟨i, c, hi, Or.inr ⟨u, hu, rfl⟩⟩) ?_
    rw [Site.isOpen_below_at, hopens, hopen]
    rfl
  · intro h t ht hopen
    obtain ⟨i, c, hc, rfl | ⟨u, hu, rfl⟩⟩ := mem_sites_iff_child.1 ht
    · exact (h c (List.mem_of_getElem? hc)).shaped
    · rw [Site.isOpen_below_at, Bool.and_eq_true] at hopen
      exact (h c (List.mem_of_getElem? hc)).inside hopen.1 u hu hopen.2

end Node

theorem isType_of_isBody {kind : Kind} (h : isBody kind = true) : isType kind = false := by
  cases kind <;> first | rfl | cases h

end Cohesion.Java
