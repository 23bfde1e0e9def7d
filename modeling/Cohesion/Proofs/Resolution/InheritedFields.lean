/-
The types of inherited fields.

A field that a unit inherits has the type that is written where it is declared.  Of this type a unit
knows the name, and the name is looked up from the unit that calls, not from the one that declares
the field.  So in two packages an inherited field may lead to two units of one name; it leads to the
same unit from both exactly if the name stands for the same in both.

Main definitions:
* `Resolver.Inherits` — a unit has a field with a type from the unit that is the first to declare
  it.

Main results:
* `Receiver.ofText_this` — how a field of the current object is written;
* `Resolver.Inherits.start?_eq` — from where the name of the type is looked up;
* `Resolver.inherited_field_iff` — **when an inherited field leads to the unit that it leads to
  where it is declared**;
* `Resolver.inherited_field_misread` — from another package it leads to another unit.
-/
import Cohesion.Proofs.Resolution.Preference
import Cohesion.Proofs.Resolution.Superclasses

set_option autoImplicit false

namespace Cohesion

/-- A name after `this.` is that of a field, if it is a name at all. -/
theorem Receiver.ofText_this (field : String) :
    ofText (some ("this." ++ field)) = .ownField field ∨
      ofText (some ("this." ++ field)) = .expression := by
  have hlist : ("this." ++ field).toList = "this.".toList ++ field.toList := String.toList_append
  have hne : ∀ word : String, ¬"this.".toList <+: word.toList → ("this." ++ field == word) = false :=
    fun word hword => beq_false_of_ne fun h => hword ⟨field.toList, by rw [← hlist, h]⟩
  have hprefix : "this.".toList.isPrefixOf ("this.".toList ++ field.toList) = true :=
    List.isPrefixOf_iff_prefix.2 (List.prefix_append _ _)
  have hdrop : ("this.".toList ++ field.toList).drop "this.".length = field.toList :=
    List.drop_left' rfl
  rw [ofText, hne "this" (by decide), hne "super" (by decide), if_neg (by simp), if_neg (by simp)]
  simp only [hlist, hprefix, hdrop, if_true, String.ofList_toList]
  split
  · exact Or.inl rfl
  · exact Or.inr rfl

namespace Resolver

variable {r : Resolver} {d b : CodeUnit} {field type : String}

/-- A unit has a field from the unit of its hierarchy, itself included, that is the first to declare
a field of this name, and declares it with a type. -/
structure Inherits (r : Resolver) (d b : CodeUnit) (field type : String) : Prop where
  /-- No unit before it declares the field. -/
  first : b.IsFirst (r.hierarchy d) fun w => ∃ f ∈ w.fields, f.name = field
  /-- The name of the type. -/
  type_eq : b.fieldType? field = some type
  /-- The type has a name. -/
  nonempty : type ≠ ""

/-- The unit that declares the field has it from itself. -/
theorem Inherits.self (h : r.Inherits d b field type) : r.Inherits b b field type := by
  obtain ⟨above, habove⟩ := exists_hierarchy_eq_cons r b
  exact ⟨⟨[], above, habove, h.first.holds, by simp⟩, h.type_eq, h.nonempty⟩

theorem Inherits.fieldType?_eq (h : r.Inherits d b field type) :
    r.fieldType? d field = some type := by
  obtain ⟨before, after, hhierarchy, -, hbefore⟩ := h.first
  exact fieldType?_eq_some hhierarchy (fun w hw f hf hname => hbefore w hw ⟨f, hf, hname⟩)
    h.type_eq h.nonempty

/-- The name of the type is looked up from the unit that calls. -/
theorem Inherits.start?_eq (h : r.Inherits d b field type) (m : Method) :
    r.start? d m (.ownField field) = r.lookup? (some type) d :=
  (LooksUp.ownField h.fieldType?_eq).start?_eq

/-- **When an inherited field leads to the unit that it leads to where it is declared.**  Of the
units that have the name of its type, the search for a method on this field starts at the one that
is preferred in the context of the calling unit.  It starts at the same unit as from the declaring
unit exactly if both are in one package, or in neither of their packages there is a unit of the
name, except that the first unit of the name at all may be in one of them.  And if it does, then
the same methods are found. -/
theorem inherited_field_iff (h : r.Inherits d b field type) (md mb : Method) :
    (∀ v, r.start? d md (.ownField field) = some v ↔ r.Preferred type d v) ∧
    (r.start? d md (.ownField field) = r.start? b mb (.ownField field) ↔
      d.package = b.package ∨ ∀ v : CodeUnit, v.IsFirst r.units (·.IsNamed type) →
        ∀ w ∈ r.units, w.IsNamed type → w.package = d.package ∨ w.package = b.package →
          w.package = v.package) ∧
    (r.start? d md (.ownField field) = r.start? b mb (.ownField field) → ∀ method line line',
      r.resolve? d md ⟨method, some ("this." ++ field), line⟩ =
        r.resolve? b mb ⟨method, some ("this." ++ field), line'⟩) := by
  refine ⟨fun v => ?_, ?_, fun hstart method line line' => ?_⟩
  · rw [h.start?_eq, lookup?_eq_some_iff h.nonempty]
  · rw [h.start?_eq, h.self.start?_eq, lookup?_eq_lookup?_iff h.nonempty]
  · rw [resolve?, resolve?]
    rcases Receiver.ofText_this field with htext | htext
    · rw [htext, hstart]
    · rw [htext]
      rfl

/-! ### A field in two packages -/

/-- The unit `Foo` of a package. -/
def fooIn (package : String) : CodeUnit where
  name := "Foo"
  qualified := package ++ ".Foo"
  package := some package
  methods := [{ name := "go" }]

/-- A method that invokes another one on a field of the current object. -/
def goOnFoo : Method where
  name := "run"
  invocations := [{ method := "go", receiver := some "this.foo" }]

/-- A unit of the package `b` that declares the field. -/
def declaresFoo : CodeUnit where
  name := "Base"
  qualified := "b.Base"
  package := some "b"
  fields := [⟨"foo", "Foo"⟩]
  methods := [goOnFoo]

/-- A unit of the package `a` that inherits the field. -/
def inheritsFoo : CodeUnit where
  name := "Derived"
  qualified := "a.Derived"
  package := some "a"
  superclass := some "Base"
  methods := [goOnFoo]

theorem inherits_foo {units : List CodeUnit}
    (h : hierarchy ⟨units⟩ inheritsFoo = [inheritsFoo, declaresFoo]) :
    Inherits ⟨units⟩ inheritsFoo declaresFoo "foo" "Foo" :=
  ⟨⟨[inheritsFoo], [], h, by decide, by decide⟩, by decide, by decide⟩

/-- With one unit of the name the field leads to it from both packages. -/
theorem inherited_field_iff_apart :
    Inherits ⟨[inheritsFoo, declaresFoo, fooIn "b"]⟩ inheritsFoo declaresFoo "foo" "Foo" ∧
      inheritsFoo.package ≠ declaresFoo.package ∧
      resolve? ⟨[inheritsFoo, declaresFoo, fooIn "b"]⟩ inheritsFoo goOnFoo
          ⟨"go", some ("this." ++ "foo"), 0⟩ =
        resolve? ⟨[inheritsFoo, declaresFoo, fooIn "b"]⟩ declaresFoo goOnFoo
          ⟨"go", some ("this." ++ "foo"), 0⟩ := by
  have hinherits : Inherits ⟨[inheritsFoo, declaresFoo, fooIn "b"]⟩ inheritsFoo declaresFoo "foo"
      "Foo" := inherits_foo (by decide)
  obtain ⟨-, hiff, hsame⟩ := inherited_field_iff hinherits goOnFoo goOnFoo
  refine ⟨hinherits, by decide, hsame (hiff.2 (Or.inr ?_)) "go" 0 0⟩
  intro v hv w hw hname _
  have honly : ∀ x ∈ [inheritsFoo, declaresFoo, fooIn "b"], x.IsNamed "Foo" →
      x.package = some "b" := by decide
  rw [honly w hw hname, honly v hv.mem hv.holds]

/-- **From another package an inherited field may lead to another unit**: each package has a unit
`Foo`, and the field is read as of the package of the calling unit. -/
theorem inherited_field_misread :
    [fooIn "a", inheritsFoo, declaresFoo, fooIn "b"].Pairwise
        (fun u v => u.qualified ≠ v.qualified) ∧
      Inherits ⟨[fooIn "a", inheritsFoo, declaresFoo, fooIn "b"]⟩ inheritsFoo declaresFoo "foo"
        "Foo" ∧
      resolve? ⟨[fooIn "a", inheritsFoo, declaresFoo, fooIn "b"]⟩ declaresFoo goOnFoo
        { method := "go", receiver := some "this.foo" } = some (fooIn "b") ∧
      resolve? ⟨[fooIn "a", inheritsFoo, declaresFoo, fooIn "b"]⟩ inheritsFoo goOnFoo
        { method := "go", receiver := some "this.foo" } = some (fooIn "a") :=
  ⟨by decide, inherits_foo (by decide), by decide, by decide⟩

end Resolver

end Cohesion
