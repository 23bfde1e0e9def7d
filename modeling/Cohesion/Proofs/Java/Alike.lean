/-
Trees of two layouts.

Two layouts of a source have the same tokens, with other blanks and comments between them.  Their
trees have the same shape: a node of the one stands for a node of the other that plays the same
role, is of the same kind and is spelled by the same tokens, and only comments stand for nothing.
What the units are made of is told from the kinds and roles of nodes and from their texts; where two
trees agree on all of that, nodes that are looked for by role or kind are found in both.

Main definitions:
* `Node.Respells` — nodes of two layouts, apart from their children;
* `Node.Alike`, `NodesAlike` — trees whose nodes are related, with comments left out;
* `Node.Agree` — nodes of two layouts that agree on what is told from them;
* `Discerns` — tests of nodes that no comment passes.

Main results:
* `NodesAlike.filter`, `NodesAlike.find?` — nodes that pass a test are found in both lists;
* `NodesAlike.head?`, `NodesAlike.getLast?` — so are first and last nodes that are no comments.
-/
import Cohesion.Java.Classes
import Cohesion.Proofs.Java.Receivers
import Cohesion.Proofs.Resolution.Alike

set_option autoImplicit false

namespace Cohesion.Java

/-! ### Trees -/

/-- Two nodes of two layouts, apart from their children: they play the same role, are of the same
kind, and have the same tokens. -/
structure Node.Respells (n n' : Node) : Prop where
  /-- The role. -/
  role : n.role = n'.role
  /-- The kind. -/
  kind : n.kind = n'.kind
  /-- The tokens. -/
  text : SameTokens n.text n'.text

mutual

/-- Trees whose nodes are related everywhere, with comments left out. -/
inductive Node.Alike (R : Node → Node → Prop) : Node → Node → Prop where
  /-- The nodes are related, and their children are alike. -/
  | intro {n n' : Node} : R n n' → NodesAlike R n.children n'.children → Node.Alike R n n'

/-- Lists of trees whose nodes are related everywhere, with comments left out. -/
inductive NodesAlike (R : Node → Node → Prop) : List Node → List Node → Prop where
  /-- No trees. -/
  | nil : NodesAlike R [] []
  /-- One more tree in both lists. -/
  | cons {n n' : Node} {ns ns' : List Node} :
      Node.Alike R n n' → NodesAlike R ns ns' → NodesAlike R (n :: ns) (n' :: ns')
  /-- A comment in the first list. -/
  | left {c : Node} {ns ns' : List Node} :
      c.IsComment → NodesAlike R ns ns' → NodesAlike R (c :: ns) ns'
  /-- A comment in the second list. -/
  | right {c : Node} {ns ns' : List Node} :
      c.IsComment → NodesAlike R ns ns' → NodesAlike R ns (c :: ns')

end

section

variable {R : Node → Node → Prop}

theorem Node.Alike.related {n n' : Node} (h : n.Alike R n') : R n n' := by
  cases h with
  | intro hrelated _ => exact hrelated

theorem Node.Alike.children {n n' : Node} (h : n.Alike R n') :
    NodesAlike R n.children n'.children := by
  cases h with
  | intro _ hchildren => exact hchildren

namespace NodesAlike

theorem append {ns ns' ms ms' : List Node} (h : NodesAlike R ns ns')
    (hms : NodesAlike R ms ms') : NodesAlike R (ns ++ ms) (ns' ++ ms') := by
  match h with
  | .nil => exact hms
  | .cons hn hns => exact .cons hn (append hns hms)
  | .left hc hns => exact .left hc (append hns hms)
  | .right hc hns => exact .right hc (append hns hms)

theorem reverse {ns ns' : List Node} (h : NodesAlike R ns ns') :
    NodesAlike R ns.reverse ns'.reverse := by
  match h with
  | .nil => exact .nil
  | .cons hn hns =>
      rw [List.reverse_cons, List.reverse_cons]
      exact (reverse hns).append (.cons hn .nil)
  | .left hc hns =>
      have hrest := (reverse hns).append (.left hc .nil)
      rwa [List.append_nil, ← List.reverse_cons] at hrest
  | .right hc hns =>
      have hrest := (reverse hns).append (.right hc .nil)
      rwa [List.append_nil, ← List.reverse_cons] at hrest

theorem of_comments {cs cs' : List Node} (h : ∀ c ∈ cs, c.IsComment) (h' : ∀ c ∈ cs', c.IsComment) :
    NodesAlike R cs cs' := by
  induction cs with
  | nil =>
      induction cs' with
      | nil => exact .nil
      | cons c cs' ih =>
          rw [List.forall_mem_cons] at h'
          exact .right h'.1 (ih h'.2)
  | cons c cs ih =>
      rw [List.forall_mem_cons] at h
      exact .left h.1 (ih h.2)

theorem of_forall₂ {ns ns' : List Node} (h : List.Forall₂ (Node.Alike R) ns ns') :
    NodesAlike R ns ns' := by
  induction h with
  | nil => exact .nil
  | cons hn _ ih => exact .cons hn ih

/-- The first nodes of two lists are alike, if neither is a comment. -/
theorem head? {ns ns' : List Node} (h : NodesAlike R ns ns')
    (hl : ∀ n ∈ ns.head?, n.kind ≠ .comment) (hr : ∀ n ∈ ns'.head?, n.kind ≠ .comment) :
    Option.Rel (Node.Alike R) ns.head? ns'.head? := by
  cases h with
  | nil => exact .none
  | cons hn _ => exact .some hn
  | left hc _ => exact absurd hc.kind (hl _ rfl)
  | right hc _ => exact absurd hc.kind (hr _ rfl)

/-- The last nodes of two lists are alike, if neither is a comment. -/
theorem getLast? {ns ns' : List Node} (h : NodesAlike R ns ns')
    (hl : ∀ n ∈ ns.getLast?, n.kind ≠ .comment) (hr : ∀ n ∈ ns'.getLast?, n.kind ≠ .comment) :
    Option.Rel (Node.Alike R) ns.getLast? ns'.getLast? := by
  rw [← List.head?_reverse] at hl hr ⊢
  rw [← List.head?_reverse]
  exact h.reverse.head? hl hr

end NodesAlike

end

/-! ### What is told from nodes -/

/-- A name with or without dots. -/
def isNameNode (n : Node) : Bool := n.kind == .scopedIdentifier || n.kind == .identifier

/-- A node whose name as a type is that of a type node, or the one word that it is. -/
def namesType (n : Node) : Bool := isTypeNode n || isWord n.text

/-- Two nodes of two layouts that agree on what is told from them. -/
structure Node.Agree (tidy : Prop) (n n' : Node) : Prop extends n.Respells n' where
  /-- The text of a name. -/
  name : n.role = some .name → n.text = n'.text
  /-- The name of the type of what is declared, or of the elements of an array. -/
  type : n.role = some .type ∨ n.role = some .element → n.typeName? = n'.typeName?
  /-- The name of a type. -/
  typeName : namesType n = true → n.typeName? = n'.typeName?
  /-- What a receiver says. -/
  object : tidy → n.role = some .object →
    Receiver.ofText (some n.string) = Receiver.ofText (some n'.string)
  /-- The name of the superclass. -/
  superclass : tidy → n.role = some .superclass →
    n.children.head?.bind Node.typeName? = n'.children.head?.bind Node.typeName?
  /-- The name of the package. -/
  package : tidy → n.kind = .packageDeclaration →
    (n.children.find? isNameNode).map (·.string) = (n'.children.find? isNameNode).map (·.string)

/-! ### Children -/

/-- A test of nodes that reads their roles and kinds, which no comment passes. -/
structure Discerns (test : Node → Bool) : Prop where
  /-- Nodes of the same role and kind pass the test together. -/
  congr : ∀ {n n' : Node}, n.role = n'.role → n.kind = n'.kind → test n = test n'
  /-- Comments do not pass it. -/
  comment : ∀ {c : Node}, c.IsComment → test c = false

theorem discerns_role (role : Role) : Discerns (·.role == some role) where
  congr hrole _ := by rw [hrole]
  comment hc := by rw [hc.role]; rfl

theorem discerns_kind (kind : Kind) (hkind : kind ≠ .comment) : Discerns (·.kind == kind) where
  congr _ hkind := by rw [hkind]
  comment hc := by rw [hc.kind]; exact beq_false_of_ne hkind.symm

theorem discerns_typeNode : Discerns isTypeNode where
  congr _ hkind := by rw [isTypeNode, isTypeNode, hkind]
  comment hc := by rw [isTypeNode, hc.kind]; rfl

theorem discerns_nameNode : Discerns isNameNode where
  congr _ hkind := by rw [isNameNode, isNameNode, hkind]
  comment hc := by rw [isNameNode, hc.kind]; rfl

theorem discerns_parameter :
    Discerns fun p => p.kind == .formalParameter || p.kind == .spreadParameter where
  congr _ hkind := by rw [hkind]
  comment hc := by rw [hc.kind]; rfl

namespace NodesAlike

variable {tidy : Prop}

/-- The nodes that pass a test are alike. -/
theorem filter {ns ns' : List Node} {test : Node → Bool} (htest : Discerns test)
    (h : NodesAlike (Node.Agree tidy) ns ns') :
    List.Forall₂ (fun n n' => n.Alike (Node.Agree tidy) n' ∧ test n = true) (ns.filter test)
      (ns'.filter test) := by
  match h with
  | .nil => exact .nil
  | @cons _ n n' _ _ hn hns =>
      have hsame := htest.congr hn.related.role hn.related.kind
      rw [List.filter_cons, List.filter_cons, ← hsame]
      split
      · exact .cons ⟨hn, ‹_›⟩ (filter htest hns)
      · exact filter htest hns
  | .left hc hns =>
      rw [List.filter_cons_of_neg (by simp [htest.comment hc])]
      exact filter htest hns
  | .right hc hns =>
      rw [List.filter_cons_of_neg (by simp [htest.comment hc])]
      exact filter htest hns

/-- The first nodes that pass a test are alike. -/
theorem find? {ns ns' : List Node} {test : Node → Bool} (htest : Discerns test)
    (h : NodesAlike (Node.Agree tidy) ns ns') :
    Option.Rel (fun n n' => n.Alike (Node.Agree tidy) n' ∧ test n = true) (ns.find? test)
      (ns'.find? test) := by
  rw [← List.head?_filter, ← List.head?_filter]
  exact rel_head? (h.filter htest)

/-- What is told from each node alone, without comments, is the same. -/
theorem flatMap_eq {α : Type} {f : Node → List α} {ns ns' : List Node}
    (hf : ∀ n n', n.Alike (Node.Agree tidy) n' → f n = f n')
    (hcomment : ∀ c : Node, c.IsComment → f c = [])
    (h : NodesAlike (Node.Agree tidy) ns ns') : ns.flatMap f = ns'.flatMap f := by
  match h with
  | .nil => rfl
  | .cons hn hns =>
      rw [List.flatMap_cons, List.flatMap_cons, hf _ _ hn, flatMap_eq hf hcomment hns]
  | .left hc hns =>
      rw [List.flatMap_cons, hcomment _ hc, List.nil_append, flatMap_eq hf hcomment hns]
  | .right hc hns =>
      rw [List.flatMap_cons, hcomment _ hc, List.nil_append, flatMap_eq hf hcomment hns]

end NodesAlike

end Cohesion.Java
