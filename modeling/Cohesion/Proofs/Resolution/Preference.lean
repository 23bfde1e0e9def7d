/-
The unit that a name stands for.

A name is looked up among the units that have it as their simple or as their qualified name.  Those
in the package of the unit in which the name stands are preferred, and of these, or of all if there
are none, the first one is taken.  So what a name stands for depends on the package in which it is
read, and it can be different in two packages.

Main definitions:
* `CodeUnit.IsNamed`, `CodeUnit.IsFirst` — the names of a unit, and the first unit of a list that
  satisfies a condition;
* `Resolver.Preferred` — the unit that a name stands for in a context;
* `Resolver.LooksUp` — the name that is looked up for a receiver.

Main results:
* `Resolver.lookup?_eq_some_iff` — looking up a name finds the preferred unit;
* `Resolver.lookup?_eq_lookup?_iff` — **when a name stands for the same in two contexts**;
* `Resolver.LooksUp.start?_eq` — where the search for a method starts.
-/
import Cohesion.Resolution.Basic

set_option autoImplicit false

namespace Cohesion

/-! ### Preferred units -/

namespace CodeUnit

/-- The name is the simple or the qualified name of the unit. -/
def IsNamed (u : CodeUnit) (name : String) : Prop := u.name = name ∨ u.qualified = name

instance (u : CodeUnit) (name : String) : Decidable (u.IsNamed name) :=
  inferInstanceAs (Decidable (_ ∨ _))

theorem isNamed_iff {u : CodeUnit} {name : String} :
    u.IsNamed name ↔ (u.name == name || u.qualified == name) = true := by
  rw [IsNamed, Bool.or_eq_true, beq_iff_eq, beq_iff_eq]

/-- The unit is the first one of a list that satisfies a condition. -/
def IsFirst (v : CodeUnit) (units : List CodeUnit) (p : CodeUnit → Prop) : Prop :=
  ∃ before after, units = before ++ v :: after ∧ p v ∧ ∀ w ∈ before, ¬p w

theorem IsFirst.mem {v : CodeUnit} {units : List CodeUnit} {p : CodeUnit → Prop}
    (h : v.IsFirst units p) : v ∈ units := by
  obtain ⟨before, after, rfl, -⟩ := h
  exact List.mem_append_right before List.mem_cons_self

theorem IsFirst.holds {v : CodeUnit} {units : List CodeUnit} {p : CodeUnit → Prop}
    (h : v.IsFirst units p) : p v := by
  obtain ⟨-, -, -, hv, -⟩ := h
  exact hv

theorem find?_eq_some_iff_isFirst {units : List CodeUnit} {v : CodeUnit} {q : CodeUnit → Bool}
    {p : CodeUnit → Prop} (h : ∀ w, q w = true ↔ p w) :
    units.find? q = some v ↔ v.IsFirst units p := by
  simp only [List.find?_eq_some_iff_append, IsFirst, ← h, Bool.not_eq_true, Bool.not_eq_true',
    exists_and_left, and_left_comm]

/-- There is a first unit that satisfies a condition if some unit does. -/
theorem exists_isFirst {units : List CodeUnit} {u : CodeUnit} {p : CodeUnit → Prop}
    [DecidablePred p] (hu : u ∈ units) (hp : p u) : ∃ v : CodeUnit, v.IsFirst units p := by
  have hfind : (units.find? fun w => decide (p w)).isSome := by
    rw [List.find?_isSome]
    exact ⟨u, hu, decide_eq_true hp⟩
  obtain ⟨v, hv⟩ := Option.isSome_iff_exists.1 hfind
  exact ⟨v, (find?_eq_some_iff_isFirst fun w => decide_eq_true_iff).1 hv⟩

theorem IsFirst.unique {v w : CodeUnit} {units : List CodeUnit} {p : CodeUnit → Prop}
    [DecidablePred p] (hv : v.IsFirst units p) (hw : w.IsFirst units p) : v = w := by
  have hfind : ∀ u : CodeUnit, (units.find? fun w => decide (p w)) = some u ↔ u.IsFirst units p :=
    fun u => find?_eq_some_iff_isFirst fun w => decide_eq_true_iff
  exact Option.some_inj.1 (((hfind v).2 hv).symm.trans ((hfind w).2 hw))

end CodeUnit

namespace Resolver

variable {r : Resolver} {u v : CodeUnit} {name : String}

/-- A unit is preferred under a name: it is the first one of this name in the package of `context`,
or there is none in this package and it is the first one of this name at all. -/
def Preferred (r : Resolver) (name : String) (context v : CodeUnit) : Prop :=
  v.IsFirst r.units (fun w => w.IsNamed name ∧ w.package = context.package) ∨
    (∀ w ∈ r.units, w.IsNamed name → w.package ≠ context.package) ∧
      v.IsFirst r.units (·.IsNamed name)

theorem lookup?_some (hne : name ≠ "") : r.lookup? (some name) u =
    ((r.candidates name).find? (·.package == u.package)).or (r.candidates name).head? := by
  rw [lookup?, if_neg (by simpa using hne)]

/-- Looking up a name finds the preferred unit. -/
theorem lookup?_eq_some_iff (hne : name ≠ "") :
    r.lookup? (some name) u = some v ↔ r.Preferred name u v := by
  have hnamed : ∀ w : CodeUnit, (w.name == name || w.qualified == name) = true ↔ w.IsNamed name :=
    fun w => CodeUnit.isNamed_iff.symm
  have hboth : ∀ w : CodeUnit, (decide ((w.name == name || w.qualified == name) = true ∧
      (w.package == u.package) = true)) = true ↔ w.IsNamed name ∧ w.package = u.package :=
    fun w => by rw [decide_eq_true_eq, hnamed, beq_iff_eq]
  rw [lookup?_some hne, candidates, Option.or_eq_some_iff, List.find?_filter,
    List.head?_filter, CodeUnit.find?_eq_some_iff_isFirst hboth,
    CodeUnit.find?_eq_some_iff_isFirst hnamed, List.find?_eq_none, Preferred]
  simp only [hboth, not_and]

/-- The only unit of a name is preferred under it. -/
theorem preferred_of_unique (hv : v ∈ r.units) (hname : v.IsNamed name)
    (hunique : ∀ w ∈ r.units, w.IsNamed name → w = v) (u : CodeUnit) : r.Preferred name u v := by
  obtain ⟨before, after, hunits, hbefore⟩ := List.eq_append_cons_of_mem hv
  have hnone : ∀ w ∈ before, ¬w.IsNamed name := by
    intro w hw hwname
    have hmem : w ∈ r.units := hunits ▸ List.mem_append_left _ hw
    exact hbefore (hunique w hmem hwname ▸ hw)
  by_cases hpackage : v.package = u.package
  · exact Or.inl ⟨before, after, hunits, ⟨hname, hpackage⟩, fun w hw h => hnone w hw h.1⟩
  · refine Or.inr ⟨fun w hw hwname => ?_, before, after, hunits, hname, hnone⟩
    rwa [hunique w hw hwname]

/-! ### Two contexts -/

theorem mem_candidates_iff {w : CodeUnit} :
    w ∈ r.candidates name ↔ w ∈ r.units ∧ w.IsNamed name := by
  rw [candidates, List.mem_filter, CodeUnit.isNamed_iff]

theorem head?_candidates_eq_some_iff :
    (r.candidates name).head? = some v ↔ v.IsFirst r.units (·.IsNamed name) := by
  rw [candidates, List.head?_filter]
  exact CodeUnit.find?_eq_some_iff_isFirst fun w => CodeUnit.isNamed_iff.symm

/-- Only the package of the context counts. -/
theorem lookup?_congr {d b : CodeUnit} (h : d.package = b.package) (name : Option String) :
    r.lookup? name d = r.lookup? name b := by
  cases name with
  | none => rfl
  | some name => rw [lookup?, lookup?, h]

/-- The first unit of a name is found, if it is in the package of the context or no unit of this
name is. -/
theorem lookup?_eq_head? (hne : name ≠ "")
    (h : ∀ v : CodeUnit, v.IsFirst r.units (·.IsNamed name) →
      ∀ w ∈ r.units, w.IsNamed name → w.package = u.package → w.package = v.package) :
    r.lookup? (some name) u = (r.candidates name).head? := by
  rw [lookup?_some hne]
  cases hcandidates : r.candidates name with
  | nil => rfl
  | cons v rest =>
      rw [List.head?_cons]
      cases hfind : (v :: rest).find? (·.package == u.package) with
      | none => rfl
      | some w =>
          have hpackage : w.package = u.package := by simpa using List.find?_some hfind
          have hw := mem_candidates_iff.1 (hcandidates ▸ List.mem_of_find?_eq_some hfind)
          have hfirst := h v (head?_candidates_eq_some_iff.1 (by rw [hcandidates, List.head?_cons]))
            w hw.1 hw.2 hpackage
          rw [List.find?_cons_of_pos (by simp [← hfirst, hpackage]), Option.some_inj] at hfind
          rw [Option.some_or, hfind]

/-- What a name stands for in two packages is the first unit of the name if one of them has a unit
of this name. -/
theorem package_eq_of_lookup?_eq (hne : name ≠ "") {d b w : CodeUnit}
    (h : r.lookup? (some name) d = r.lookup? (some name) b) (hpackages : d.package ≠ b.package)
    (hv : v.IsFirst r.units (·.IsNamed name)) (hw : w ∈ r.units) (hname : w.IsNamed name)
    (hpackage : w.package = d.package) : w.package = v.package := by
  rw [lookup?_some hne, lookup?_some hne, head?_candidates_eq_some_iff.2 hv] at h
  cases hfind : (r.candidates name).find? (·.package == d.package) with
  | none =>
      have hother := List.find?_eq_none.1 hfind w (mem_candidates_iff.2 ⟨hw, hname⟩)
      simp [hpackage] at hother
  | some x =>
      have hx : x.package = d.package := by simpa using List.find?_some hfind
      rw [hfind, Option.some_or] at h
      cases hfind' : (r.candidates name).find? (·.package == b.package) with
      | none =>
          rw [hfind', Option.none_or, Option.some_inj] at h
          rw [hpackage, ← hx, h]
      | some y =>
          -- one unit would be in both packages
          have hy : y.package = b.package := by simpa using List.find?_some hfind'
          rw [hfind', Option.some_or, Option.some_inj] at h
          exact absurd (hx.symm.trans (h ▸ hy)) hpackages

/-- **When a name stands for the same in two contexts**: they are in one package, or in neither of
their packages there is a unit of the name, except that the first unit of the name at all may be in
one of them. -/
theorem lookup?_eq_lookup?_iff (hne : name ≠ "") {d b : CodeUnit} :
    r.lookup? (some name) d = r.lookup? (some name) b ↔
      d.package = b.package ∨ ∀ v : CodeUnit, v.IsFirst r.units (·.IsNamed name) →
        ∀ w ∈ r.units, w.IsNamed name → w.package = d.package ∨ w.package = b.package →
          w.package = v.package := by
  constructor
  · intro h
    by_cases hpackages : d.package = b.package
    · exact Or.inl hpackages
    · refine Or.inr fun v hv w hw hname hpackage => ?_
      rcases hpackage with hpackage | hpackage
      · exact package_eq_of_lookup?_eq hne h hpackages hv hw hname hpackage
      · exact package_eq_of_lookup?_eq hne h.symm (Ne.symm hpackages) hv hw hname hpackage
  · rintro (hpackages | h)
    · exact lookup?_congr hpackages _
    · rw [lookup?_eq_head? hne fun v hv w hw hname hp => h v hv w hw hname (Or.inl hp),
        lookup?_eq_head? hne fun v hv w hw hname hp => h v hv w hw hname (Or.inr hp)]

/-! ### Where the search starts -/

/-- The type of a field is that of the first unit of the hierarchy to declare it. -/
theorem fieldType?_eq_some {before after : List CodeUnit} {field type : String}
    (hhierarchy : r.hierarchy u = before ++ v :: after)
    (hbefore : ∀ w ∈ before, ∀ f ∈ w.fields, f.name ≠ field)
    (htype : v.fieldType? field = some type) (hne : type ≠ "") :
    r.fieldType? u field = some type := by
  have hnone : before.findSome? (fun w => (w.fieldType? field).filter (· != "")) = none := by
    refine List.findSome?_eq_none_iff.2 fun w hw => ?_
    have hfields : w.fields.find? (·.name == field) = none :=
      List.find?_eq_none.2 fun f hf => by simpa using hbefore w hw f hf
    rw [CodeUnit.fieldType?, hfields]
    rfl
  rw [Resolver.fieldType?, hhierarchy, List.findSome?_append, hnone, Option.none_or,
    List.findSome?_cons, htype, Option.filter_some, if_pos (by simpa using hne)]

/-- The name that is looked up for a receiver in a method of a unit. -/
inductive LooksUp (r : Resolver) (u : CodeUnit) (m : Method) : Receiver → String → Prop where
  /-- The superclass of the unit. -/
  | parent {name : String} : u.superclass = some name → LooksUp r u m .parent name
  /-- The type of a field. -/
  | ownField {field type : String} : r.fieldType? u field = some type →
      LooksUp r u m (.ownField field) type
  /-- The type of a variable. -/
  | ofVariable {x type : String} : r.variableType? u m x = some type →
      LooksUp r u m (.simple x) type
  /-- A name that is no variable. -/
  | className {name : String} : r.variableType? u m name = none → LooksUp r u m (.simple name) name
  /-- A name with dots. -/
  | qualified {name : String} : LooksUp r u m (.qualified name) name

/-- The search starts at the unit that the name stands for. -/
theorem LooksUp.start?_eq {m : Method} {receiver : Receiver} (h : r.LooksUp u m receiver name) :
    r.start? u m receiver = r.lookup? (some name) u := by
  cases h with
  | parent h => rw [start?, parent?, h]
  | ownField h => rw [start?, h]
  | ofVariable h => rw [start?, h]
  | className h => rw [start?, h]
  | qualified => rfl

/-- The search starts at the same unit with two resolvers that agree on the types of fields and on
what is looked up. -/
theorem start?_congr {r' : Resolver} {m : Method} {receiver : Receiver}
    (hfield : ∀ field, r'.fieldType? u field = r.fieldType? u field)
    (hlookup : ∀ name, r.LooksUp u m receiver name →
      r'.lookup? (some name) u = r.lookup? (some name) u) :
    r'.start? u m receiver = r.start? u m receiver := by
  have hvariable : ∀ x, r'.variableType? u m x = r.variableType? u m x := fun x => by
    rw [variableType?, variableType?, hfield]
  cases receiver with
  | self => rfl
  | parent =>
      rw [start?, start?, parent?, parent?]
      cases hsuper : u.superclass with
      | none => rfl
      | some name => exact hlookup name (.parent hsuper)
  | ownField field =>
      rw [start?, start?, hfield]
      cases htype : r.fieldType? u field with
      | none => rfl
      | some type => exact hlookup type (.ownField htype)
  | simple x =>
      rw [start?, start?, hvariable]
      cases htype : r.variableType? u m x with
      | none => exact hlookup x (.className htype)
      | some type => exact hlookup type (.ofVariable htype)
  | qualified name => exact hlookup name .qualified
  | expression => rfl

end Resolver

end Cohesion
