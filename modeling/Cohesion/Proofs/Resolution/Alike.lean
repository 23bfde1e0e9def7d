/-
Units that are alike have the same calls.

Resolution reads names, packages, superclasses, fields, variables and what receivers say, but no
files, no lines, and no layout.  So for two lists of units that agree on all of that, every
invocation is resolved to units in the same place of the two lists, and the same calls are counted.

Main definitions:
* `Invocation.Alike`, `Method.Alike`, `CodeUnit.Alike` — what does not depend on the layout;
* `Call.entry` — the names of the two units of a call, and the count.

Main results:
* `Resolver.hierarchy_alike` — the same superclasses are found;
* `Resolver.resolve?_alike` — invocations are resolved alike;
* `CallGraph.entries_ofUnits_eq` — **the same calls are counted**.
-/
import Cohesion.Resolution.Basic
import Mathlib.Data.List.Forall2

set_option autoImplicit false

namespace Cohesion

/-! ### Related lists and options -/

section

variable {α β γ : Type} {R : α → β → Prop}

theorem map_eq_of_forall₂ {f : α → γ} {g : β → γ} {xs : List α} {ys : List β}
    (h : List.Forall₂ R xs ys) (hfg : ∀ x y, R x y → f x = g y) : xs.map f = ys.map g := by
  induction h with
  | nil => rfl
  | cons hxy _ ih => rw [List.map_cons, List.map_cons, hfg _ _ hxy, ih]

theorem any_eq_of_forall₂ {p : α → Bool} {q : β → Bool} {xs : List α} {ys : List β}
    (h : List.Forall₂ R xs ys) (hpq : ∀ x y, R x y → p x = q y) : xs.any p = ys.any q := by
  induction h with
  | nil => rfl
  | cons hxy _ ih => rw [List.any_cons, List.any_cons, hpq _ _ hxy, ih]

theorem findSome?_eq_of_forall₂ {f : α → Option γ} {g : β → Option γ} {xs : List α} {ys : List β}
    (h : List.Forall₂ R xs ys) (hfg : ∀ x y, R x y → f x = g y) :
    xs.findSome? f = ys.findSome? g := by
  induction h with
  | nil => rfl
  | cons hxy _ ih => rw [List.findSome?_cons, List.findSome?_cons, hfg _ _ hxy, ih]

theorem rel_head? {xs : List α} {ys : List β} (h : List.Forall₂ R xs ys) :
    Option.Rel R xs.head? ys.head? := by
  cases h with
  | nil => exact .none
  | cons hxy _ => exact .some hxy

theorem rel_getLast? {xs : List α} {ys : List β} (h : List.Forall₂ R xs ys) :
    Option.Rel R xs.getLast? ys.getLast? := by
  rw [← List.head?_reverse, ← List.head?_reverse]
  exact rel_head? (List.forall₂_reverse_iff.2 h)

theorem rel_find? {p : α → Bool} {q : β → Bool} {xs : List α} {ys : List β}
    (h : List.Forall₂ R xs ys) (hpq : ∀ x y, R x y → p x = q y) :
    Option.Rel R (xs.find? p) (ys.find? q) := by
  rw [← List.head?_filter, ← List.head?_filter]
  exact rel_head? (List.rel_filter (fun x y hxy => Bool.eq_iff_iff.mp (hpq x y hxy)) h)

theorem rel_or {x x' : Option α} {y y' : Option β} (h : Option.Rel R x y)
    (h' : Option.Rel R x' y') : Option.Rel R (x.or x') (y.or y') := by
  cases h with
  | none => exact h'
  | some hxy => exact .some hxy

theorem map_eq_of_rel {f : α → γ} {g : β → γ} {x : Option α} {y : Option β}
    (h : Option.Rel R x y) (hfg : ∀ a b, R a b → f a = g b) : x.map f = y.map g := by
  cases h with
  | none => rfl
  | some hab => rw [Option.map_some, Option.map_some, hfg _ _ hab]

theorem bind_eq_of_rel {f : α → Option γ} {g : β → Option γ} {x : Option α} {y : Option β}
    (h : Option.Rel R x y) (hfg : ∀ a b, R a b → f a = g b) : x.bind f = y.bind g := by
  cases h with
  | none => rfl
  | some hab => rw [Option.bind_some, Option.bind_some, hfg _ _ hab]

end

/-! ### Units -/

/-- Invocations of the same method, in tidy sources with receivers that say the same. -/
structure Invocation.Alike (tidy : Prop) (i i' : Invocation) : Prop where
  /-- The name of the invoked method. -/
  method : i.method = i'.method
  /-- What the receiver says. -/
  receiver : tidy → Receiver.ofText i.receiver = Receiver.ofText i'.receiver

/-- Methods that differ only in their lines and in the layout of their invocations. -/
structure Method.Alike (tidy : Prop) (m m' : Method) : Prop where
  name : m.name = m'.name
  paramCount : m.paramCount = m'.paramCount
  locals : m.locals = m'.locals
  invocations : List.Forall₂ (Invocation.Alike tidy) m.invocations m'.invocations

/-- Units that differ only in their files and lines, and unless the sources are tidy in the names
that are taken from the text with its layout. -/
structure CodeUnit.Alike (tidy : Prop) (u u' : CodeUnit) : Prop where
  /-- The name. -/
  name : u.name = u'.name
  /-- The fields. -/
  fields : u.fields = u'.fields
  /-- The methods. -/
  methods : List.Forall₂ (Method.Alike tidy) u.methods u'.methods
  /-- The qualified name. -/
  qualified : tidy → u.qualified = u'.qualified
  /-- The package. -/
  package : tidy → u.package = u'.package
  /-- The superclass. -/
  superclass : tidy → u.superclass = u'.superclass

variable {tidy : Prop} (htidy : tidy)

theorem CodeUnit.Alike.declares {u u' : CodeUnit} (h : u.Alike tidy u') (method : String) :
    u.declares method = u'.declares method :=
  any_eq_of_forall₂ h.methods fun m m' hm => by rw [hm.name]

include htidy

theorem CodeUnit.Alike.same {u u' v v' : CodeUnit} (hu : u.Alike tidy u') (hv : v.Alike tidy v') :
    u.same v = u'.same v' := by
  rw [CodeUnit.same, CodeUnit.same, hu.qualified htidy, hv.qualified htidy]

/-! ### Resolution -/

namespace Resolver

variable {units units' : List CodeUnit} (h : List.Forall₂ (CodeUnit.Alike tidy) units units')

include h

theorem lookup?_alike (name : Option String) {c c' : CodeUnit} (hc : c.Alike tidy c') :
    Option.Rel (CodeUnit.Alike tidy) (lookup? ⟨units⟩ name c) (lookup? ⟨units'⟩ name c') := by
  cases name with
  | none => exact .none
  | some name =>
      have hcandidates := List.rel_filter (p := fun u => u.name == name || u.qualified == name)
        (q := fun u => u.name == name || u.qualified == name) (fun u u' hu =>
          Bool.eq_iff_iff.mp (by rw [hu.name, hu.qualified htidy])) h
      rw [lookup?, lookup?]
      split
      · exact .none
      · exact rel_or (rel_find? hcandidates fun u u' hu => by
          rw [hu.package htidy, hc.package htidy]) (rel_head? hcandidates)

theorem parent?_alike {u u' : CodeUnit} (hu : u.Alike tidy u') :
    Option.Rel (CodeUnit.Alike tidy) (parent? ⟨units⟩ u) (parent? ⟨units'⟩ u') := by
  rw [parent?, parent?, hu.superclass htidy]
  exact lookup?_alike htidy h _ hu

theorem climb_alike {seen seen' : List CodeUnit} {u u' : CodeUnit}
    (hseen : List.Forall₂ (CodeUnit.Alike tidy) seen seen') (hu : u.Alike tidy u') (fuel : Nat) :
    List.Forall₂ (CodeUnit.Alike tidy) (climb ⟨units⟩ seen u fuel)
      (climb ⟨units'⟩ seen' u' fuel) := by
  induction fuel generalizing seen seen' u u' with
  | zero => exact .nil
  | succ fuel ih =>
      have hany : seen.any (·.same u) = seen'.any (·.same u') :=
        any_eq_of_forall₂ hseen fun v v' hv => hv.same htidy hu
      have hparent := parent?_alike htidy h hu
      rw [climb, climb, hany]
      split
      · exact .nil
      · -- the two climbs go on from the known superclass or stop together
        generalize parent? ⟨units⟩ u = parent, parent? ⟨units'⟩ u' = parent' at hparent
        refine .cons hu ?_
        cases hparent with
        | none => exact .nil
        | some hp => exact ih (.cons hu hseen) hp

theorem hierarchy_alike {u u' : CodeUnit} (hu : u.Alike tidy u') :
    List.Forall₂ (CodeUnit.Alike tidy) (hierarchy ⟨units⟩ u) (hierarchy ⟨units'⟩ u') := by
  rw [hierarchy, hierarchy, h.length_eq]
  exact climb_alike htidy h .nil hu _

theorem declaring?_alike {u u' : CodeUnit} (hu : u.Alike tidy u') (method : String) :
    Option.Rel (CodeUnit.Alike tidy) (declaring? ⟨units⟩ u method)
      (declaring? ⟨units'⟩ u' method) :=
  rel_find? (hierarchy_alike htidy h hu) fun _ _ hv => hv.declares method

theorem fieldType?_eq {u u' : CodeUnit} (hu : u.Alike tidy u') (field : String) :
    fieldType? ⟨units⟩ u field = fieldType? ⟨units'⟩ u' field :=
  findSome?_eq_of_forall₂ (hierarchy_alike htidy h hu) fun v v' hv => by
    rw [CodeUnit.fieldType?, CodeUnit.fieldType?, hv.fields]

section

variable {u u' : CodeUnit} (hu : u.Alike tidy u') {m m' : Method} (hm : m.Alike tidy m')

include hu hm

theorem variableType?_eq (name : String) :
    variableType? ⟨units⟩ u m name = variableType? ⟨units'⟩ u' m' name := by
  rw [variableType?, variableType?, Method.typeOf?, Method.typeOf?, hm.locals,
    fieldType?_eq htidy h hu]

theorem start?_alike (receiver : Receiver) :
    Option.Rel (CodeUnit.Alike tidy) (start? ⟨units⟩ u m receiver)
      (start? ⟨units'⟩ u' m' receiver) := by
  cases receiver with
  | self => exact .some hu
  | parent => exact parent?_alike htidy h hu
  | ownField name =>
      rw [start?, start?, fieldType?_eq htidy h hu]
      exact lookup?_alike htidy h _ hu
  | simple name =>
      rw [start?, start?, variableType?_eq htidy h hu hm]
      split
      · exact lookup?_alike htidy h _ hu
      · exact lookup?_alike htidy h _ hu
  | qualified name =>
      rw [start?, start?]
      exact lookup?_alike htidy h _ hu
  | expression => exact .none

/-- Invocations are resolved to units that are alike. -/
theorem resolve?_alike {i i' : Invocation} (hi : i.Alike tidy i') :
    Option.Rel (CodeUnit.Alike tidy) (resolve? ⟨units⟩ u m i) (resolve? ⟨units'⟩ u' m' i') := by
  have hstart := start?_alike htidy h hu hm (.ofText i.receiver)
  rw [resolve?, resolve?, ← hi.receiver htidy, hi.method]
  generalize start? ⟨units⟩ u m (.ofText i.receiver) = start,
    start? ⟨units'⟩ u' m' (.ofText i.receiver) = start' at hstart
  cases hstart with
  | none => exact .none
  | some hv => exact declaring?_alike htidy h hv i'.method

end

end Resolver

/-! ### Calls -/

/-- Calls between units of the same names, as many. -/
structure Call.Alike (c c' : Call) : Prop where
  caller : c.caller.qualified = c'.caller.qualified
  callee : c.callee.qualified = c'.callee.qualified
  count : c.count = c'.count

omit htidy in
theorem Call.record_alike {u v u' v' : CodeUnit} (hu : u.qualified = u'.qualified)
    (hv : v.qualified = v'.qualified) (count : Int) {cs cs' : List Call}
    (h : List.Forall₂ Call.Alike cs cs') :
    List.Forall₂ Call.Alike (Call.record u v count cs) (Call.record u' v' count cs') := by
  induction h with
  | nil => exact .cons ⟨hu, hv, rfl⟩ .nil
  | @cons c c' cs cs' hc hcs ih =>
      have hjoins : c.joins u v = c'.joins u' v' := by
        rw [Call.joins, Call.joins, CodeUnit.same, CodeUnit.same, CodeUnit.same, CodeUnit.same,
          hc.caller, hc.callee, hu, hv]
      rw [Call.record, Call.record, hjoins]
      split
      · exact .cons ⟨hc.caller, hc.callee, by rw [hc.count]⟩ hcs
      · exact .cons hc ih

/-- Sites of invocations that are alike. -/
structure InvocationSite.Alike (tidy : Prop) (site site' : InvocationSite) : Prop where
  unit : site.unit.Alike tidy site'.unit
  method : site.method.Alike tidy site'.method
  invocation : site.invocation.Alike tidy site'.invocation

omit htidy in
theorem invocationSites_alike {units units' : List CodeUnit}
    (h : List.Forall₂ (CodeUnit.Alike tidy) units units') :
    List.Forall₂ (InvocationSite.Alike tidy) (invocationSites units) (invocationSites units') :=
  List.rel_flatMap h fun _ _ hu => List.rel_flatMap hu.methods fun _ _ hm =>
    List.rel_map (fun _ _ hi => ⟨hu, hm, hi⟩) hm.invocations

/-- The names of the units of a call, and the count. -/
def Call.entry (c : Call) : String × String × Int :=
  (c.caller.qualified, c.callee.qualified, c.count)

/-- **Units that are alike have the same calls.** -/
theorem CallGraph.entries_ofUnits_eq {units units' : List CodeUnit}
    (h : List.Forall₂ (CodeUnit.Alike tidy) units units') :
    (CallGraph.ofUnits units).calls.map Call.entry =
      (CallGraph.ofUnits units').calls.map Call.entry := by
  -- one step of the fold keeps the calls alike
  have hcalls : List.Forall₂ Call.Alike (CallGraph.ofUnits units).calls
      (CallGraph.ofUnits units').calls := by
    refine List.rel_foldl (P := fun g g' : CallGraph => List.Forall₂ Call.Alike g.calls g'.calls)
      (fun g g' hg site site' hsite => ?_) .nil (invocationSites_alike h)
    have htarget := Resolver.resolve?_alike htidy h hsite.unit hsite.method hsite.invocation
    rw [Resolver.target?, Resolver.target?]
    generalize Resolver.resolve? ⟨units⟩ site.unit site.method site.invocation = target,
      Resolver.resolve? ⟨units'⟩ site'.unit site'.method site'.invocation = target' at htarget
    cases htarget with
    | none => exact hg
    | @some v v' hv =>
        dsimp only
        rw [CallGraph.addCall, CallGraph.addCall, hsite.unit.same htidy hv]
        split
        · exact hg
        · exact Call.record_alike (hsite.unit.qualified htidy) (hv.qualified htidy) 1 hg
  exact map_eq_of_forall₂ hcalls fun c c' hc => by
    rw [Call.entry, Call.entry, hc.caller, hc.callee, hc.count]

end Cohesion
