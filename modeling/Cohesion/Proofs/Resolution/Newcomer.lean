/-
A unit that no other unit mentions.

To resolve the invocations of a unit, names are looked up that are written in the units of the
project: names of superclasses, of types and of receivers.  A unit whose names are written in no
other one is never found in this way, whatever names and packages it shares with others and
wherever it stands among them.  So a list of units that gains such a unit keeps its calls as they
are; all that is new are the calls of the new unit itself.

Main definitions:
* `CodeUnit.Mentions` — the names that are written in a unit;
* `CallGraph.ExtendsBy` — the calls of another graph, and besides them calls of one unit only.

Main results:
* `Resolver.mentions_of_looksUp` — only names are looked up that some unit mentions;
* `Resolver.target?_insert` — the old invocations are resolved as before;
* `CallGraph.filter_calls_ofHistory` — calls of one unit can be left out before they are recorded;
* `CallGraph.extendsBy_ofUnits` — **a unit that is not mentioned adds its own calls only**.
-/
import Cohesion.Proofs.Resolution.Preference
import Cohesion.Proofs.Resolution.Superclasses
import Mathlib.Data.List.Find

set_option autoImplicit false

namespace Cohesion

/-! ### Mentioned names -/

/-- A name is written in a unit: as its superclass, as the type of a field, of a parameter or of a
local variable, or before the dot of an invocation. -/
def CodeUnit.Mentions (u : CodeUnit) (name : String) : Prop :=
  u.superclass = some name ∨ (∃ f ∈ u.fields, f.type = name) ∨
    ∃ m ∈ u.methods, (∃ l ∈ m.locals, l.2 = name) ∨ ∃ i ∈ m.invocations, i.receiver = some name

instance (u : CodeUnit) (name : String) : Decidable (u.Mentions name) :=
  inferInstanceAs (Decidable (_ ∨ _))

/-- The receiver that is a name has this name as its text. -/
theorem Receiver.text_of_ofText {text : Option String} {name : String}
    (h : ofText text = .simple name ∨ ofText text = .qualified name) : text = some name := by
  cases text with
  | none => simp [ofText] at h
  | some s =>
      rw [ofText] at h
      -- only in two branches the receiver is a name, and there it is the text
      split at h
      · simp at h
      · split at h
        · simp at h
        · dsimp only at h
          split at h
          · split at h <;> simp at h
          · split at h
            · simpa using h
            · split at h
              · simpa using h
              · simp at h

namespace Resolver

variable {r : Resolver} {u : CodeUnit} {name : String}

theorem mentions_of_fieldType? (hu : u ∈ r.units) {field : String}
    (h : r.fieldType? u field = some name) : ∃ w ∈ r.units, w.Mentions name := by
  obtain ⟨owner, howner, htype⟩ := List.exists_of_findSome?_eq_some h
  obtain ⟨f, hf, hname⟩ := Option.map_eq_some_iff.1 (Option.filter_eq_some_iff.1 htype).1
  exact ⟨owner, mem_of_hierarchy hu howner, .inr (.inl ⟨f, List.mem_of_find?_eq_some hf, hname⟩)⟩

/-- The names that are looked up for an invocation in a listed unit are mentioned in listed
units. -/
theorem mentions_of_looksUp (hu : u ∈ r.units) {m : Method} (hm : m ∈ u.methods) {i : Invocation}
    (hi : i ∈ m.invocations) (h : r.LooksUp u m (.ofText i.receiver) name) :
    ∃ w ∈ r.units, w.Mentions name := by
  have hreceiver : i.receiver = some name → ∃ w ∈ r.units, w.Mentions name := fun htext =>
    ⟨u, hu, .inr (.inr ⟨m, hm, .inr ⟨i, hi, htext⟩⟩)⟩
  generalize hof : Receiver.ofText i.receiver = receiver at h
  cases h with
  | parent hsuper => exact ⟨u, hu, .inl hsuper⟩
  | ownField htype => exact mentions_of_fieldType? hu htype
  | @ofVariable x _ htype =>
      rcases Option.or_eq_some_iff.1 htype with hlocal | ⟨-, hfield⟩
      · obtain ⟨before, after, hlocals, -⟩ :=
          List.lookup_eq_some_iff.1 (Option.filter_eq_some_iff.1 hlocal).1
        exact ⟨u, hu, .inr (.inr ⟨m, hm, .inl ⟨(x, name), by simp [hlocals], rfl⟩⟩)⟩
      · exact mentions_of_fieldType? hu hfield
  | className => exact hreceiver (Receiver.text_of_ofText (.inl hof))
  | qualified => exact hreceiver (Receiver.text_of_ofText (.inr hof))

/-! ### Old invocations -/

section

variable {front back : List CodeUnit} {n : CodeUnit}

theorem lookup?_insert (hname : ¬n.IsNamed name) (context : CodeUnit) :
    lookup? ⟨front ++ n :: back⟩ (some name) context =
      lookup? ⟨front ++ back⟩ (some name) context := by
  have hcandidates : candidates ⟨front ++ n :: back⟩ name = candidates ⟨front ++ back⟩ name := by
    rw [CodeUnit.isNamed_iff, Bool.not_eq_true] at hname
    simp [candidates, hname]
  rw [lookup?, lookup?, hcandidates]

variable (hunknown : ∀ w ∈ front ++ back, ∀ name, w.Mentions name → ¬n.IsNamed name)
  (hu : u ∈ front ++ back)

include hunknown hu

theorem parent?_insert : parent? ⟨front ++ n :: back⟩ u = parent? ⟨front ++ back⟩ u := by
  rw [parent?, parent?]
  cases hsuper : u.superclass with
  | none => rfl
  | some name => exact lookup?_insert (hunknown u hu name (.inl hsuper)) u

theorem hierarchy_insert : hierarchy ⟨front ++ n :: back⟩ u = hierarchy ⟨front ++ back⟩ u :=
  hierarchy_eq_of_parent?_eq (r := ⟨front ++ back⟩) (fun _ hv => parent?_insert hunknown hv) hu

theorem declaring?_insert (method : String) :
    declaring? ⟨front ++ n :: back⟩ u method = declaring? ⟨front ++ back⟩ u method := by
  rw [declaring?, declaring?, hierarchy_insert hunknown hu]

theorem fieldType?_insert (field : String) :
    fieldType? ⟨front ++ n :: back⟩ u field = fieldType? ⟨front ++ back⟩ u field := by
  rw [fieldType?, fieldType?, hierarchy_insert hunknown hu]

/-- The old invocations are resolved as before. -/
theorem resolve?_insert {m : Method} (hm : m ∈ u.methods) {i : Invocation}
    (hi : i ∈ m.invocations) :
    resolve? ⟨front ++ n :: back⟩ u m i = resolve? ⟨front ++ back⟩ u m i := by
  have hstart : start? ⟨front ++ n :: back⟩ u m (.ofText i.receiver) =
      start? ⟨front ++ back⟩ u m (.ofText i.receiver) := by
    refine start?_congr (fieldType?_insert hunknown hu) fun name hname => ?_
    obtain ⟨w, hw, hmentions⟩ := mentions_of_looksUp (r := ⟨front ++ back⟩) hu hm hi hname
    exact lookup?_insert (hunknown w hw name hmentions) u
  rw [resolve?, resolve?, hstart]
  -- the search starts at an old unit
  refine Option.bind_congr fun v hv => ?_
  exact declaring?_insert hunknown (mem_of_start? (r := ⟨front ++ back⟩) hu hv) i.method

end

end Resolver

/-! ### Calls of one unit left out -/

/-- The call does not start at a unit. -/
def Call.startsElsewhere (n : CodeUnit) (c : Call) : Bool := !c.caller.same n

/-- Calls of a unit can be left out before or after one more call is recorded. -/
theorem Call.filter_record (n x y : CodeUnit) (k : Int) (calls : List Call) :
    (Call.record x y k calls).filter (startsElsewhere n) =
      if x.same n then calls.filter (startsElsewhere n)
      else Call.record x y k (calls.filter (startsElsewhere n)) := by
  induction calls with
  | nil => cases hx : x.same n <;> simp [record, startsElsewhere, hx]
  | cons c calls ih =>
      cases hjoins : c.joins x y with
      | true =>
          have hcaller : c.caller.same n = x.same n := by
            rw [CodeUnit.same, CodeUnit.same, (joins_iff.1 hjoins).1]
          cases hx : x.same n <;> simp [record, startsElsewhere, hjoins, hcaller, hx]
      | false =>
          rw [record, if_neg (by simp [hjoins]), List.filter_cons, List.filter_cons, ih]
          cases hc : startsElsewhere n c <;> cases hx : x.same n <;> simp [record, hjoins]

namespace CallGraph

/-- Calls of a unit can be left out before or after a history is recorded. -/
theorem filter_calls_ofHistory (n : CodeUnit) (units units' : List CodeUnit)
    (history : List Call) :
    (ofHistory units history).calls.filter (Call.startsElsewhere n) =
      (ofHistory units' (history.filter (Call.startsElsewhere n))).calls := by
  rw [ofHistory, ofHistory, List.foldl_filter]
  refine List.foldl_rel
    (r := fun g g' : CallGraph => g.calls.filter (Call.startsElsewhere n) = g'.calls) rfl
    fun c _ g g' h => ?_
  rw [addCall, addCall]
  cases hself : c.caller.same c.callee with
  | true => simpa using h
  | false =>
      -- a call that starts elsewhere is recorded in both graphs, another one in none
      simp only [Bool.false_eq_true, if_false, Call.filter_record, h, Call.startsElsewhere]
      cases c.caller.same n <;> rfl

/-- A call graph has the calls of another one, and besides them only calls that start at one
unit. -/
structure ExtendsBy (g' g : CallGraph) (n : CodeUnit) : Prop where
  /-- The counts between the units of the smaller graph are the same. -/
  callCount : ∀ a ∈ g.units, ∀ b ∈ g.units, g'.callCount a b = g.callCount a b
  /-- The calls that do not start at the unit are those of the smaller graph, in the same order. -/
  kept : g'.calls.filter (Call.startsElsewhere n) = g.calls
  /-- All other calls start at the unit. -/
  added : ∀ c ∈ g'.calls, c ∉ g.calls → c.caller.same n = true

/-- The counts of other units do not depend on the calls of a unit. -/
theorem callCount_eq_of_filter {g g' : CallGraph} {n a : CodeUnit} (ha : a.same n = false)
    (h : g'.calls.filter (Call.startsElsewhere n) = g.calls) (b : CodeUnit) :
    g'.callCount a b = g.callCount a b := by
  have hfind : g'.calls.find? (·.joins a b) = g.calls.find? (·.joins a b) := by
    rw [← h, List.find?_filter]
    refine List.find?_congr fun c _ => ?_
    cases hjoins : c.joins a b with
    | false => simp
    | true =>
        have hcaller : c.caller.same n = a.same n := by
          rw [CodeUnit.same, CodeUnit.same, (Call.joins_iff.1 hjoins).1]
        simp [Call.startsElsewhere, hcaller, ha]
  rw [callCount, callCount, hfind]

section

variable {front back : List CodeUnit} {n : CodeUnit}
  (hnew : ∀ w ∈ front ++ back, w.qualified ≠ n.qualified)
  (hunknown : ∀ w ∈ front ++ back, ¬w.Mentions n.name ∧ ¬w.Mentions n.qualified)

include hnew hunknown

/-- The calls of the old units, with and without the new one. -/
theorem filterMap_call?_insert {units : List CodeUnit} (hunits : units ⊆ front ++ back) :
    ((invocationSites units).filterMap (InvocationSite.call? ⟨front ++ n :: back⟩)).filter
        (Call.startsElsewhere n) =
      (invocationSites units).filterMap (InvocationSite.call? ⟨front ++ back⟩) := by
  have hnamed : ∀ w ∈ front ++ back, ∀ name, w.Mentions name → ¬n.IsNamed name := by
    rintro w hw name hmentions (rfl | rfl)
    · exact (hunknown w hw).1 hmentions
    · exact (hunknown w hw).2 hmentions
  rw [List.filter_filterMap]
  refine List.filterMap_congr fun site hsite => ?_
  obtain ⟨hu, hm, hi⟩ := mem_invocationSites_iff.1 hsite
  have hother : site.unit.same n = false :=
    Bool.eq_false_iff.2 fun hsame => hnew site.unit (hunits hu) (CodeUnit.same_iff.1 hsame)
  rw [InvocationSite.call?, InvocationSite.call?, Resolver.target?, Resolver.target?,
    Resolver.resolve?_insert hnamed (hunits hu) hm hi]
  cases Resolver.resolve? ⟨front ++ back⟩ site.unit site.method site.invocation with
  | none => rfl
  | some target => simp [Option.filter_some, Call.startsElsewhere, hother]

/-- **A unit that is not mentioned adds its own calls only**, wherever it is inserted: the names of
its superclass, of its types and receivers may be anything, and it may share its simple name and
its package with other units. -/
theorem extendsBy_ofUnits :
    (ofUnits (front ++ n :: back)).ExtendsBy (ofUnits (front ++ back)) n := by
  have hown : ((invocationSites [n]).filterMap
      (InvocationSite.call? ⟨front ++ n :: back⟩)).filter (Call.startsElsewhere n) = [] := by
    refine List.filter_eq_nil_iff.2 fun c hc => ?_
    obtain ⟨site, hsite, hcall⟩ := List.mem_filterMap.1 hc
    obtain ⟨target, -, rfl⟩ := Option.map_eq_some_iff.1 hcall
    rw [List.mem_singleton.1 (unit_of_mem_invocationSites hsite)]
    simp [Call.startsElsewhere, CodeUnit.same]
  have hsites : invocationSites (front ++ n :: back) =
      invocationSites front ++ (invocationSites [n] ++ invocationSites back) := by
    rw [← invocationSites_append, ← invocationSites_append, List.singleton_append]
  have hkept : (ofUnits (front ++ n :: back)).calls.filter (Call.startsElsewhere n) =
      (ofUnits (front ++ back)).calls := by
    rw [ofUnits_eq_ofHistory, ofUnits_eq_ofHistory,
      filter_calls_ofHistory n (front ++ n :: back) (front ++ back), hsites,
      List.filterMap_append, List.filterMap_append, List.filter_append, List.filter_append, hown,
      List.nil_append,
      filterMap_call?_insert hnew hunknown (List.subset_append_left front back),
      filterMap_call?_insert hnew hunknown (List.subset_append_right front back),
      ← List.filterMap_append, ← invocationSites_append]
  constructor
  case callCount =>
    intro a ha b _
    rw [units_ofUnits] at ha
    exact callCount_eq_of_filter
      (Bool.eq_false_iff.2 fun hsame => hnew a ha (CodeUnit.same_iff.1 hsame)) hkept b
  case kept => exact hkept
  case added =>
    intro c hc hold
    rw [← hkept, List.mem_filter, not_and, Call.startsElsewhere, Bool.not_eq_true,
      Bool.not_eq_false'] at hold
    exact hold hc

end

/-- A unit that is called by its qualified name and through the type of a field. -/
def hosted : CodeUnit where
  name := "Node"
  qualified := "p.Node"
  package := some "p"
  methods := [{ name := "go" }]

/-- A unit that mentions the other one by its qualified name only. -/
def host : CodeUnit where
  name := "Use"
  qualified := "p.Use"
  package := some "p"
  superclass := some "p.Node"
  fields := [⟨"node", "p.Node"⟩]
  methods := [{ name := "run", invocations := [{ method := "go", receiver := some "node" },
    { method := "go", receiver := some "p.Node" }, { method := "go" }] }]

/-- A unit of the simple name and the package of another one, which calls both others. -/
def guest : CodeUnit where
  name := "Node"
  qualified := "p.Guest.Node"
  package := some "p"
  superclass := some "Use"
  methods := [{ name := "go", invocations := [{ method := "run" },
    { method := "go", receiver := some "p.Node" }] }]

/-- The new unit would be found under the name `Node`, and it makes two calls. -/
theorem extendsBy_ofUnits_guest :
    (ofUnits ([host] ++ guest :: [hosted])).total = 5 ∧
      (ofUnits ([host] ++ [hosted])).callCount host hosted = 3 ∧
      (ofUnits ([host] ++ guest :: [hosted])).ExtendsBy (ofUnits ([host] ++ [hosted])) guest :=
  ⟨by decide +kernel, by decide +kernel, extendsBy_ofUnits (by decide) (by decide)⟩

end CallGraph

end Cohesion
