/-
Layout and what is told from a source.

Whitespace, line breaks and comments between the tokens of a source do not change the names of its
classes, their fields, their methods and the numbers of parameters.  Names that are taken from the
text of several tokens need more: a package, a superclass or a receiver is told from its text with
the layout inside, so a comment after `extends` is taken for the superclass, and calls are lost.  In
tidy trees nothing stands there, and all is the same, down to the calls between the units.

All of this is about the trees of two layouts, by whatever parser.

Main results:
* `layout_irrelevant` — **layout does not matter in tidy trees**;
* `exists_layout_dependence` — a comment in the wrong place changes a superclass and the calls.
-/
import Cohesion.Indexing.Language
import Cohesion.Proofs.Java.Grammar
import Cohesion.Proofs.Java.Tidy
import Cohesion.Proofs.Java.Units

set_option autoImplicit false

namespace Cohesion.Java

/-- **Layout does not matter in tidy trees.**  The trees of two layouts of the same tokens give the
same classes with the same fields, methods and numbers of parameters, whatever stands between the
tokens.  If both are tidy, then the qualified names, packages and superclasses are the same, the
receivers say the same, and the same calls are counted between the units. -/
theorem layout_irrelevant {program program' : Node}
    (h : NodesAlike Node.Respells program.children program'.children)
    (hl : program.IsRegular) (hr : program'.IsRegular) (file file' : Option Path) :
    List.Forall₂ (CodeUnit.Alike (program.IsTidy ∧ program'.IsTidy)) (program.programUnits file)
        (program'.programUnits file') ∧
      (program.IsTidy → program'.IsTidy →
        (CallGraph.ofUnits (program.programUnits file)).calls.map Call.entry =
          (CallGraph.ofUnits (program'.programUnits file')).calls.map Call.entry) := by
  have hagree : NodesAlike (Node.Agree (program.IsTidy ∧ program'.IsTidy)) program.children
      program'.children := by
    rw [Node.IsRegular, Node.sites_eq] at hl hr
    refine h.agree (fun s hs => ⟨hl s hs, fun ht => ?_⟩) fun s hs => ⟨hr s hs, fun ht => ?_⟩
    · exact ht.1 s (by rwa [Node.sites_eq])
    · exact ht.2 s (by rwa [Node.sites_eq])
  have hunits := programUnits_alike hagree file file'
  exact ⟨hunits, fun ht ht' => CallGraph.entries_ofUnits_eq ⟨ht, ht'⟩ hunits⟩

/-- A source with a line for each thing. -/
def spreadSource : List Char :=
  ['\n'].intercalate <| List.map String.toList
    ["package a.b;", "class A extends B \x7b", "  B b;", "  void f(int x) \x7b",
      "    this.b // next", "        .g();", "  \x7d", "\x7d", "class B \x7b",
      "  void g() \x7b \x7d", "\x7d"]

/-- The same tokens on a few lines. -/
def denseSource : List Char :=
  ['\n'].intercalate <| List.map String.toList
    ["package a.b; class A extends B \x7b B b; /* f */ void f(int x) \x7b this.b.g(); \x7d \x7d",
      "class B \x7b void g() \x7b \x7d \x7d"]

/-- A call in a chain is counted wherever the line is broken. -/
theorem layout_irrelevant_chain :
    NodesAlike Node.Respells (Node.ofText spreadSource).children
        (Node.ofText denseSource).children ∧
      (Node.ofText spreadSource).IsRegular ∧ (Node.ofText denseSource).IsRegular ∧
      (Node.ofText spreadSource).IsTidy ∧ (Node.ofText denseSource).IsTidy ∧
      List.Forall₂ (CodeUnit.Alike True) (extractUnits none spreadSource)
        (extractUnits none denseSource) ∧
      (CallGraph.ofUnits (extractUnits none spreadSource)).calls.map Call.entry =
        [("a.b.A", "a.b.B", 1)] := by
  have hsources : (Source.ofText? spreadSource).map Source.spelling =
        (Source.ofText? denseSource).map Source.spelling ∧
      (Node.ofText spreadSource).IsRegular ∧ (Node.ofText denseSource).IsRegular ∧
      (Node.ofText spreadSource).sites.all (·.node.isUncluttered) = true ∧
      (Node.ofText denseSource).sites.all (·.node.isUncluttered) = true ∧
      (CallGraph.ofUnits (extractUnits none denseSource)).calls.map Call.entry =
        [("a.b.A", "a.b.B", 1)] := by
    -- the kernel reads the characters of a list much faster than those of a literal
    unfold spreadSource denseSource
    simp only [List.map_cons, List.map_nil]
    repeat rw [String.toList_ofList]
    decide +kernel
  obtain ⟨hsame, hl, hr, hleft, hright, hcount⟩ := hsources
  have halike := Node.ofText_alike hsame
  have htidy := Node.isTidy_of_isUncluttered hleft
  have htidy' := Node.isTidy_of_isUncluttered hright
  obtain ⟨hunits, hcalls⟩ := layout_irrelevant halike hl hr none none
  rw [eq_true (And.intro htidy htidy')] at hunits
  exact ⟨halike, hl, hr, htidy, htidy', hunits, (hcalls htidy htidy').trans hcount⟩

/-- A class whose superclass has a comment before its name. -/
def commentedSource : List Char :=
  "class A extends /* base */ B \x7b void f() \x7b super.g(); \x7d \x7d ".toList ++
    "class B \x7b void g() \x7b \x7d \x7d".toList

/-- The same class without the comment. -/
def plainSource : List Char :=
  "class A extends B \x7b void f() \x7b super.g(); \x7d \x7d ".toList ++
    "class B \x7b void g() \x7b \x7d \x7d".toList

/-- The units of these classes, with the name that is told of the superclass. -/
def unitsExtending (superclass : String) : List CodeUnit :=
  [{ CodeUnit.named "A" with
      superclass := some superclass, startLine := 1, endLine := 1
      methods := [{ name := "f", startLine := 1, endLine := 1,
                    invocations := [⟨"g", some "super", 1⟩] }] },
    { CodeUnit.named "B" with
      startLine := 1, endLine := 1, methods := [{ name := "g", startLine := 1, endLine := 1 }] }]

/-- **A comment is taken for the superclass**, and the call that goes there is lost. -/
theorem exists_layout_dependence :
    NodesAlike Node.Respells (Node.ofText commentedSource).children
        (Node.ofText plainSource).children ∧
      (Node.ofText commentedSource).IsRegular ∧ (Node.ofText plainSource).IsRegular ∧
      extractUnits none commentedSource = unitsExtending "/* base */" ∧
      extractUnits none plainSource = unitsExtending "B" ∧
      (CallGraph.ofUnits (extractUnits none commentedSource)).calls.map Call.entry = [] ∧
      (CallGraph.ofUnits (extractUnits none plainSource)).calls.map Call.entry =
        [("A", "B", 1)] := by
  have hsources : (Source.ofText? commentedSource).map Source.spelling =
        (Source.ofText? plainSource).map Source.spelling ∧
      (Node.ofText commentedSource).IsRegular ∧ (Node.ofText plainSource).IsRegular ∧
      extractUnits none commentedSource = unitsExtending "/* base */" ∧
      extractUnits none plainSource = unitsExtending "B" := by
    unfold commentedSource plainSource
    repeat rw [String.toList_ofList]
    decide +kernel
  obtain ⟨hsame, hl, hr, hcommented, hplain⟩ := hsources
  refine ⟨Node.ofText_alike hsame, hl, hr, hcommented, hplain, ?_, ?_⟩
  · rw [hcommented]
    decide +kernel
  · rw [hplain]
    decide +kernel

end Cohesion.Java
