/-
Calls between methods and calls between units.

The invocations of a project are told twice: as calls between units, one for each invocation, and
under the labels of the calling methods, every label of a called method once.  Methods with one
label, as overloads are, share an entry.  Both tell the same about which unit calls which, provided
that the labels tell units apart: two units may have the same simple name, and a dot in a name can
be taken for the one before a method.

Main definitions:
* `MethodSite`, `methodSites` — the methods of units;
* `CodeUnit.label`, `MethodSite.calleeLabels` — the label of a method, and those of what it calls;
* `MethodCalls.Lists` — a table lists the labels of the methods of units;
* `TellingNames` — the names of units tell them apart in labels.

Main results:
* `MethodCalls.lists_ofUnits` — the table of calls between methods, in the order of the units;
* `MethodCalls.exists_label_iff` — when a method of a unit calls one of another unit;
* `MethodCalls.lists_calls` — **the labels are listed, and they tell the calls between units**.
-/
import Cohesion.Proofs.CallGraph.Reading
import Cohesion.Proofs.Files.PathText
import Cohesion.Proofs.Resolution.Calls
import Mathlib.Data.List.Basic

set_option autoImplicit false

namespace Cohesion

/-! ### Lists without repetitions -/

theorem nodup_eraseDups {α : Type} [BEq α] [LawfulBEq α] [DecidableEq α] (xs : List α) :
    xs.eraseDups.Nodup := by
  induction xs using List.reverseRecOn with
  | nil => exact List.nodup_nil
  | append_singleton xs a ih =>
      rw [eraseDups_concat]
      split
      · exact ih
      · rename_i ha
        rw [← List.concat_eq_append]
        exact ih.concat fun hmem => ha (List.mem_eraseDups.1 hmem)

namespace MethodCalls

/-- A label at the end of a list, unless it is in the list already. -/
def once (labels : List String) (label : String) : List String :=
  if labels.contains label then labels else labels ++ [label]

theorem foldl_once (xs labels : List String) :
    labels.foldl once xs.eraseDups = (xs ++ labels).eraseDups := by
  induction labels generalizing xs with
  | nil => rw [List.foldl_nil, List.append_nil]
  | cons label labels ih =>
      have honce : once xs.eraseDups label = (xs ++ [label]).eraseDups := by
        rw [once, eraseDups_concat]
        simp only [List.contains_iff_mem, List.mem_eraseDups]
      rw [List.foldl_cons, honce, ih, List.append_assoc, List.singleton_append]

/-! ### Tables -/

/-- Of the entries for some keys the one for a given key is changed, or it is a new one. -/
theorem adjust_map {keys : List String} (hkeys : keys.Nodup) (key : String)
    (f : List String → List String) (values : String → List String) :
    adjust key f (keys.map fun k => (k, values k)) =
      (keys.map fun k => (k, if k = key then f (values k) else values k)) ++
        if key ∈ keys then [] else [(key, f [])] := by
  induction keys with
  | nil => rfl
  | cons k keys ih =>
      rw [List.nodup_cons] at hkeys
      rw [List.map_cons, List.map_cons, adjust]
      by_cases hk : k = key
      · subst hk
        have hrest : ∀ l ∈ keys, l ≠ k := fun l hl h => hkeys.1 (h ▸ hl)
        have hsame : (keys.map fun l => (l, if l = k then f (values l) else values l)) =
            keys.map fun l => (l, values l) :=
          List.map_congr_left fun l hl => by rw [if_neg (hrest l hl)]
        simp [hsame]
      · have hmem : key ∈ k :: keys ↔ key ∈ keys := by simp [Ne.symm hk]
        simp only [beq_eq_false_iff_ne.2 hk, Bool.false_eq_true, if_false, if_neg hk, hmem,
          ih hkeys.2, List.cons_append]

/-- Two changes of one entry. -/
theorem adjust_adjust (key : String) (f g : List String → List String)
    (entries : List (String × List String)) :
    adjust key f (adjust key g entries) = adjust key (f ∘ g) entries := by
  induction entries with
  | nil => simp [adjust]
  | cons entry entries ih =>
      by_cases hk : entry.1 = key
      · simp [adjust, hk]
      · simp [adjust, hk, ih]

end MethodCalls

/-! ### Labels -/

/-- The label of a method of a unit. -/
def CodeUnit.label (u : CodeUnit) (method : String) : String := u.name ++ "." ++ method

/-- The label is one of a method of the unit. -/
def CodeUnit.Labels (u : CodeUnit) (label : String) : Prop := ∃ method, label = u.label method

/-- Where a method is declared. -/
structure MethodSite where
  /-- The unit. -/
  unit : CodeUnit
  /-- The method. -/
  method : Method
  deriving Repr

namespace MethodSite

/-- The label of a method. -/
def label (s : MethodSite) : String := s.unit.label s.method.name

/-- The labels of the invocations in a method, in order. -/
def calleeLabels (r : Resolver) (s : MethodSite) : List String :=
  s.method.invocations.map fun i => calleeLabel (r.resolve? s.unit s.method i) i.method

end MethodSite

/-- The methods of units, in order. -/
def methodSites (units : List CodeUnit) : List MethodSite :=
  units.flatMap fun u => u.methods.map fun m => ⟨u, m⟩

theorem mem_methodSites_iff {units : List CodeUnit} {s : MethodSite} :
    s ∈ methodSites units ↔ s.unit ∈ units ∧ s.method ∈ s.unit.methods := by
  simp only [methodSites, List.mem_flatMap, List.mem_map]
  constructor
  · rintro ⟨u, hu, m, hm, rfl⟩
    exact ⟨hu, hm⟩
  · rintro ⟨hu, hm⟩
    exact ⟨_, hu, _, hm, rfl⟩

/-- The labels of the invocations in all methods of one label. -/
def calleesUnder (units : List CodeUnit) (label : String) : List String :=
  ((methodSites units).filter (·.label == label)).flatMap (·.calleeLabels ⟨units⟩)

namespace MethodCalls

/-! ### Recording methods -/

/-- The labels that are recorded under a key change only its entry. -/
theorem entries_foldl_record (key : String) (labels : List String) {t : MethodCalls}
    {entries : List (String × List String)} {f : List String → List String}
    (ht : t.entries = adjust key f entries) :
    (labels.foldl (·.record key ·) t).entries =
      adjust key ((fun callees => labels.foldl once callees) ∘ f) entries := by
  induction labels generalizing t f with
  | nil => exact ht
  | cons label labels ih =>
      have hrecord : (t.record key label).entries = adjust key ((once · label) ∘ f) entries := by
        have hentries : (t.record key label).entries = adjust key (once · label) t.entries := rfl
        rw [hentries, ht]
        exact adjust_adjust key _ f entries
      exact ih hrecord

/-- A method adds the labels of its invocations to the entry of its own label. -/
theorem entries_recordMethod (r : Resolver) (s : MethodSite) (t : MethodCalls) :
    (recordMethod r s.unit t s.method).entries =
      adjust s.label (fun callees => (s.calleeLabels r).foldl once callees) t.entries := by
  have hfold : recordMethod r s.unit t s.method =
      (s.calleeLabels r).foldl (·.record s.label ·) (t.declare s.label) := by
    rw [MethodSite.calleeLabels, List.foldl_map]
    rfl
  rw [hfold]
  exact entries_foldl_record s.label (s.calleeLabels r) rfl

/-- The entries that methods make, one for each label. -/
theorem entries_foldl_recordMethod (r : Resolver) (sites : List MethodSite) :
    (sites.foldl (fun t s => recordMethod r s.unit t s.method) {}).entries =
      (sites.map (·.label)).eraseDups.map fun key =>
        (key, ((sites.filter (·.label == key)).flatMap (·.calleeLabels r)).eraseDups) := by
  -- induction on the last method, whose label may have an entry already
  induction sites using List.reverseRecOn with
  | nil => rfl
  | append_singleton sites s ih =>
      rw [List.foldl_concat, entries_recordMethod, ih, adjust_map (nodup_eraseDups _),
        List.map_append, List.map_singleton, eraseDups_concat]
      have hvalues : ∀ key,
          (if key = s.label then
            (s.calleeLabels r).foldl once
              ((sites.filter (·.label == key)).flatMap (·.calleeLabels r)).eraseDups
          else ((sites.filter (·.label == key)).flatMap (·.calleeLabels r)).eraseDups) =
            (((sites ++ [s]).filter (·.label == key)).flatMap (·.calleeLabels r)).eraseDups := by
        intro key
        rw [List.filter_append, List.flatMap_append]
        split
        · rename_i hkey
          simp [foldl_once, hkey]
        · rename_i hkey
          simp [Ne.symm hkey]
      simp only [hvalues, List.mem_eraseDups]
      split
      · rw [List.append_nil]
      · rename_i hnew
        -- no earlier method has the label
        have hnone : sites.filter (·.label == s.label) = [] := by
          refine List.filter_eq_nil_iff.2 fun s' hs' hlabel => hnew ?_
          exact List.mem_map.2 ⟨s', hs', eq_of_beq hlabel⟩
        have hfirst : (s.calleeLabels r).foldl once [] = (s.calleeLabels r).eraseDups :=
          foldl_once [] (s.calleeLabels r)
        rw [List.map_append, List.map_singleton, List.filter_append, hnone, hfirst]
        simp

theorem entries_ofUnits (units : List CodeUnit) :
    (ofUnits units).entries = ((methodSites units).map (·.label)).eraseDups.map fun key =>
      (key, (calleesUnder units key).eraseDups) := by
  have hfold : ofUnits units =
      (methodSites units).foldl (fun t s => recordMethod ⟨units⟩ s.unit t s.method) {} := by
    rw [ofUnits, methodSites, List.foldl_flatMap]
    simp only [List.foldl_map]
  rw [hfold]
  exact entries_foldl_recordMethod ⟨units⟩ (methodSites units)

/-- A table lists the methods of units and what they call. -/
structure Lists (calls : MethodCalls) (units : List CodeUnit) : Prop where
  /-- The keys are the labels of all methods, each where it first appears. -/
  keys : calls.entries.map (·.1) = ((methodSites units).map (·.label)).eraseDups
  /-- No label is a key twice. -/
  keysOnce : (calls.entries.map (·.1)).Nodup
  /-- Under a key stand the labels of all invocations in the methods of this label, each where it
  first appears. -/
  callees : ∀ entry ∈ calls.entries, entry.2 = (calleesUnder units entry.1).eraseDups
  /-- No label stands twice under a key. -/
  calleesOnce : ∀ entry ∈ calls.entries, entry.2.Nodup

theorem lists_ofUnits (units : List CodeUnit) : (ofUnits units).Lists units := by
  have hkeys : (ofUnits units).entries.map (·.1) =
      ((methodSites units).map (·.label)).eraseDups := by
    rw [entries_ofUnits, List.map_map]
    exact List.map_id _
  have hcallees : ∀ entry ∈ (ofUnits units).entries,
      entry.2 = (calleesUnder units entry.1).eraseDups := by
    intro entry hentry
    rw [entries_ofUnits] at hentry
    obtain ⟨key, -, rfl⟩ := List.mem_map.1 hentry
    rfl
  refine ⟨hkeys, ?_, hcallees, fun entry hentry => ?_⟩
  · rw [hkeys]
    exact nodup_eraseDups _
  · rw [hcallees entry hentry]
    exact nodup_eraseDups _

/-- A label stands under a key exactly if it is that of an invocation in a method with this key. -/
theorem mem_entry_iff {units : List CodeUnit} {key label : String} :
    (∃ entry ∈ (ofUnits units).entries, entry.1 = key ∧ label ∈ entry.2) ↔
      ∃ site ∈ invocationSites units, site.unit.label site.method.name = key ∧
        calleeLabel ((Resolver.mk units).target? site) site.invocation.method = label := by
  constructor
  · rintro ⟨entry, hentry, rfl, hlabel⟩
    rw [(lists_ofUnits units).callees entry hentry, List.mem_eraseDups] at hlabel
    obtain ⟨s, hs, hlabel⟩ := List.mem_flatMap.1 hlabel
    obtain ⟨hsites, hkey⟩ := List.mem_filter.1 hs
    obtain ⟨i, hi, hlabel⟩ := List.mem_map.1 hlabel
    obtain ⟨hunit, hmethod⟩ := mem_methodSites_iff.1 hsites
    exact ⟨⟨s.unit, s.method, i⟩, mem_invocationSites_iff.2 ⟨hunit, hmethod, hi⟩, eq_of_beq hkey,
      hlabel⟩
  · rintro ⟨site, hsite, rfl, rfl⟩
    obtain ⟨hunit, hmethod, hi⟩ := mem_invocationSites_iff.1 hsite
    have hs : ⟨site.unit, site.method⟩ ∈ methodSites units :=
      mem_methodSites_iff.2 ⟨hunit, hmethod⟩
    have hkey : site.unit.label site.method.name ∈ (ofUnits units).entries.map (·.1) := by
      rw [(lists_ofUnits units).keys, List.mem_eraseDups]
      exact List.mem_map.2 ⟨_, hs, rfl⟩
    obtain ⟨entry, hentry, heq⟩ := List.mem_map.1 hkey
    refine ⟨entry, hentry, heq, ?_⟩
    rw [(lists_ofUnits units).callees entry hentry, List.mem_eraseDups, heq]
    exact List.mem_flatMap.2 ⟨⟨site.unit, site.method⟩, List.mem_filter.2 ⟨hs, beq_self_eq_true _⟩,
      List.mem_map_of_mem hi⟩

end MethodCalls

/-! ### Names that tell units apart -/

/-- The names of units tell them apart in labels. -/
structure TellingNames (units : List CodeUnit) : Prop where
  /-- The qualified names are different. -/
  qualified : units.Pairwise fun u v => u.qualified ≠ v.qualified
  /-- The simple names are different. -/
  simple : units.Pairwise fun u v => u.name ≠ v.name
  /-- There is no dot in a simple name. -/
  dotless : ∀ u ∈ units, '.' ∉ u.name.toList
  /-- There is no dot in the name of an invoked method. -/
  invoked : ∀ site ∈ invocationSites units, '.' ∉ site.invocation.method.toList

namespace TellingNames

variable {units : List CodeUnit} (h : TellingNames units) {u v : CodeUnit}

include h

/-- A name that units do not share belongs to one of them. -/
theorem eq_of_name_eq (hu : u ∈ units) (hv : v ∈ units) (hname : u.name = v.name) : u = v :=
  List.inj_on_of_nodup_map (List.pairwise_map.2 h.simple) hu hv hname

theorem eq_of_same (hu : u ∈ units) (hv : v ∈ units) (hsame : u.same v = true) : u = v :=
  List.inj_on_of_nodup_map (List.pairwise_map.2 h.qualified) hu hv (CodeUnit.same_iff.1 hsame)

/-- What stands before the first dot of a label is the name of the unit. -/
theorem eq_of_label_eq (hu : u ∈ units) (hv : v ∈ units) {x y : String}
    (hlabel : u.label x = v.label y) : u = v := by
  have hlist : u.name.toList ++ '.' :: x.toList = v.name.toList ++ '.' :: y.toList := by
    have hchars := congrArg String.toList hlabel
    simpa [CodeUnit.label, String.toList_append] using hchars
  have hparts := congrArg (Text.splitAt '.') hlist
  rw [Text.splitAt_append_cons (h.dotless u hu), Text.splitAt_append_cons (h.dotless v hv)]
    at hparts
  exact h.eq_of_name_eq hu hv (String.toList_inj.1 (List.cons.inj hparts).1)

/-- The label of an external method has no dot. -/
theorem external_ne_label {site : InvocationSite} (hsite : site ∈ invocationSites units)
    (x : String) : calleeLabel none site.invocation.method ≠ u.label x := by
  intro hlabel
  have hdot : '.' ∈ (calleeLabel none site.invocation.method).toList := by
    rw [hlabel]
    simp [CodeUnit.label, String.toList_append]
  have hchars : (calleeLabel none site.invocation.method).toList =
      site.invocation.method.toList ++ " (ext)".toList := String.toList_append
  rw [hchars, List.mem_append] at hdot
  rcases hdot with hdot | hdot
  · exact h.invoked site hsite hdot
  · exact absurd hdot (by decide)

end TellingNames

namespace CallGraph

/-- There are calls from one unit to another one exactly if an invocation in the one is resolved to
the other one. -/
theorem callCount_pos_iff {units : List CodeUnit} (h : TellingNames units) {a b : CodeUnit}
    (ha : a ∈ units) (hb : b ∈ units) (hab : a ≠ b) :
    0 < (ofUnits units).callCount a b ↔ ∃ site ∈ invocationSites units,
      site.unit = a ∧ (Resolver.mk units).target? site = some b := by
  have hdifferent : a.same b = false :=
    Bool.eq_false_iff.2 fun hsame => hab (h.eq_of_same ha hb hsame)
  rw [ofUnits_eq_ofHistory, callCount_ofHistory hdifferent, Call.tally_filterMap, Int.natCast_pos,
    List.countP_pos_iff]
  constructor
  · rintro ⟨site, hsite, hcall⟩
    rw [Bool.and_eq_true, Option.any_eq_true] at hcall
    obtain ⟨hunit, target, htarget, hsame⟩ := hcall
    have hlisted := unit_of_mem_invocationSites hsite
    obtain rfl := h.eq_of_same hlisted ha hunit
    obtain rfl := h.eq_of_same (Resolver.mem_of_resolve? (r := ⟨units⟩) hlisted htarget) hb hsame
    exact ⟨site, hsite, rfl, htarget⟩
  · rintro ⟨site, hsite, rfl, htarget⟩
    refine ⟨site, hsite, ?_⟩
    simp [htarget, CodeUnit.same_iff]

end CallGraph

namespace MethodCalls

/-- A label of one unit stands under a key of another one exactly if an invocation in the other one
is resolved to the one. -/
theorem exists_label_iff {units : List CodeUnit} (h : TellingNames units) {a b : CodeUnit}
    (ha : a ∈ units) (hb : b ∈ units) :
    (∃ entry ∈ (ofUnits units).entries, a.Labels entry.1 ∧ ∃ label ∈ entry.2, b.Labels label) ↔
      ∃ site ∈ invocationSites units,
        site.unit = a ∧ (Resolver.mk units).target? site = some b := by
  constructor
  · rintro ⟨entry, hentry, ⟨x, hkey⟩, label, hlabel, y, rfl⟩
    obtain ⟨site, hsite, hsiteKey, hcallee⟩ := mem_entry_iff.1 ⟨entry, hentry, rfl, hlabel⟩
    have hlisted := unit_of_mem_invocationSites hsite
    obtain rfl := h.eq_of_label_eq hlisted ha (hsiteKey.trans hkey)
    refine ⟨site, hsite, rfl, ?_⟩
    cases htarget : (Resolver.mk units).target? site with
    | none =>
        rw [htarget] at hcallee
        exact absurd hcallee (h.external_ne_label hsite y)
    | some target =>
        rw [htarget] at hcallee
        have hmem := Resolver.mem_of_resolve? (r := ⟨units⟩) hlisted htarget
        rw [h.eq_of_label_eq hmem hb hcallee]
  · rintro ⟨site, hsite, rfl, htarget⟩
    obtain ⟨entry, hentry, hkey, hlabel⟩ := mem_entry_iff.2 ⟨site, hsite, rfl, rfl⟩
    refine ⟨entry, hentry, ⟨_, hkey⟩, _, hlabel, site.invocation.method, ?_⟩
    rw [htarget]
    rfl

/-- **The labels are listed, and they tell the calls between units.**  The table of calls between
methods lists the methods of all units and what they call.  If the names of the units tell them
apart in labels, then there are calls from one unit to another one exactly if under a key of the one
stands a label of the other one. -/
theorem lists_calls (units : List CodeUnit) :
    (ofUnits units).Lists units ∧
      (TellingNames units → ∀ a ∈ units, ∀ b ∈ units, a ≠ b →
        (0 < (CallGraph.ofUnits units).callCount a b ↔
          ∃ entry ∈ (ofUnits units).entries,
            a.Labels entry.1 ∧ ∃ label ∈ entry.2, b.Labels label)) := by
  refine ⟨lists_ofUnits units, fun h a ha b hb hab => ?_⟩
  rw [CallGraph.callCount_pos_iff h ha hb hab, exists_label_iff h ha hb]

/-- Three units, of which one has two methods of one name. -/
def errand : List CodeUnit :=
  [{ name := "A", qualified := "p.A", package := some "p", fields := [⟨"b", "B"⟩]
     methods := [{ name := "run", invocations := [{ method := "go", receiver := some "b" },
       { method := "print" }, { method := "go", receiver := some "b" }] },
       { name := "run", paramCount := 1, invocations := [{ method := "stop" }] }] },
    { name := "B", qualified := "p.B", package := some "p", superclass := some "C"
      methods := [{ name := "go", invocations := [{ method := "stop" }] }] },
    { name := "C", qualified := "q.C", methods := [{ name := "stop" }] }]

theorem tellingNames_errand : TellingNames errand where
  qualified := by decide
  simple := by decide
  dotless := by decide
  invoked := by decide

/-- Two methods share an entry, and the labels tell the calls. -/
theorem lists_calls_errand :
    (ofUnits errand).entries =
      [("A.run", ["B.go", "print (ext)", "stop (ext)"]), ("B.go", ["C.stop"]), ("C.stop", [])] ∧
    (ofUnits errand).Lists errand ∧
    ∀ a ∈ errand, ∀ b ∈ errand, a ≠ b → (0 < (CallGraph.ofUnits errand).callCount a b ↔
      ∃ entry ∈ (ofUnits errand).entries,
        a.Labels entry.1 ∧ ∃ label ∈ entry.2, b.Labels label) := by
  obtain ⟨hlists, hcalls⟩ := lists_calls errand
  exact ⟨by decide +kernel, hlists, hcalls tellingNames_errand⟩

end MethodCalls

end Cohesion
