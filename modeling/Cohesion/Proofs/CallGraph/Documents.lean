/-
Call documents and their graphs.

A document is an object that lists names, each once, and calls between names.  It may name units
that it does not list and give counts that are negative: nothing of that matters to its graph, which
has one count for each ordered pair of different names, the sum of the counts of all its entries.
Entries from a name to itself leave no trace.

Main definitions:
* `Json.unitNames`, `Json.namedCalls` — the names and the calls in a JSON value;
* `NamedCall.pairCount` — the sum of the counts of all calls from one name to another.

Main results:
* `CallDocument.ofJson_eq_ok_iff` — which values are documents;
* `CallDocument.graph_eq_ofHistory` — the graph of a document records its calls;
* `CallDocument.count_of_mem_graph` — the count of an edge is that of its pair.
-/
import Cohesion.CallGraph.Document
import Cohesion.Proofs.CallGraph.Entries
import Cohesion.Proofs.Coupling.Acceptance

set_option autoImplicit false

namespace Cohesion

/-! ### Which values are documents -/

/-- The texts that a JSON value lists as units. -/
def Json.unitNames (value : Json) : List String :=
  match value.member? "units" with
  | some (.arr units) => units.filterMap fun
    | .str name => some name
    | _ => none
  | _ => []

/-- The calls that a JSON value lists. -/
def Json.namedCalls (value : Json) : List NamedCall :=
  match value.member? "calls" with
  | some (.arr entries) => entries.filterMap fun entry => (CallDocument.readCall entry).toOption
  | _ => []

namespace CallDocument

/-- Names that are read are texts, each of which is listed once. -/
theorem of_readNames_eq_ok {seen : List String} {units : List Json} {names : List String}
    (h : readNames seen units = .ok names) :
    units = names.map .str ∧ names.Nodup ∧ ∀ name ∈ names, name ∉ seen := by
  induction units generalizing seen names with
  | nil =>
      cases h
      simp
  | cons unit units ih =>
      cases unit with
      | str name =>
          rw [readNames] at h
          split at h
          · cases h
          · rename_i hseen
            rw [List.contains_iff_mem] at hseen
            cases hrest : readNames (name :: seen) units with
            | error e =>
                rw [hrest] at h
                cases h
            | ok rest =>
                rw [hrest] at h
                cases h
                obtain ⟨rfl, hnodup, hfresh⟩ := ih hrest
                simp only [List.mem_cons, not_or] at hfresh
                refine ⟨rfl, List.nodup_cons.2 ⟨fun hmem => (hfresh name hmem).1 rfl, hnodup⟩, ?_⟩
                exact List.forall_mem_cons.2 ⟨hseen, fun n hn => (hfresh n hn).2⟩
      | _ => cases h

theorem readNames_map {seen names : List String} (hnodup : names.Nodup)
    (hfresh : ∀ name ∈ names, name ∉ seen) : readNames seen (names.map .str) = .ok names := by
  induction names generalizing seen with
  | nil => rfl
  | cons name names ih =>
      obtain ⟨hname, hnodup⟩ := List.nodup_cons.1 hnodup
      obtain ⟨hseen, hfresh⟩ := List.forall_mem_cons.1 hfresh
      have hnext : ∀ n ∈ names, n ∉ name :: seen := by
        intro n hn
        rw [List.mem_cons, not_or]
        exact ⟨fun heq => hname (heq ▸ hn), hfresh n hn⟩
      rw [List.map_cons, readNames, if_neg (mt List.contains_iff_mem.1 hseen), ih hnodup hnext]
      rfl

/-- Which names can be read: texts, each of which is listed once. -/
theorem readNames_eq_ok_iff {units : List Json} {names : List String} :
    readNames [] units = .ok names ↔ units = names.map .str ∧ names.Nodup := by
  constructor
  · intro h
    obtain ⟨hunits, hnodup, -⟩ := of_readNames_eq_ok h
    exact ⟨hunits, hnodup⟩
  · rintro ⟨rfl, hnodup⟩
    exact readNames_map hnodup (by simp)

/-- **Which JSON values are documents**: names are listed, each once, and all entries of the calls,
if there are any, are calls. -/
theorem ofJson_eq_ok_iff {value : Json} {d : CallDocument} : ofJson value = .ok d ↔
    value.member? "units" = some (.arr (d.names.map .str)) ∧ d.names.Nodup ∧
      ∃ entries, (value.member? "calls").getD (.arr []) = .arr entries ∧
        List.Forall₂ (fun entry c => readCall entry = .ok c) entries d.calls := by
  constructor
  · intro h
    unfold ofJson at h
    split at h
    · rename_i units hunits
      cases hnames : readNames [] units with
      | error e =>
          rw [hnames] at h
          cases h
      | ok names =>
          rw [hnames] at h
          simp only [bind, Except.bind] at h
          split at h
          · rename_i entries hentries
            cases hcalls : entries.mapM readCall with
            | error e =>
                rw [hcalls] at h
                cases h
            | ok calls =>
                rw [hcalls] at h
                cases h
                obtain ⟨rfl, hnodup⟩ := readNames_eq_ok_iff.1 hnames
                exact ⟨hunits, hnodup, entries, hentries, (mapM_eq_ok_iff _ _ _).1 hcalls⟩
          · cases h
    · cases h
  · rintro ⟨hunits, hnodup, entries, hentries, hcalls⟩
    have hnames := readNames_eq_ok_iff.2 ⟨rfl, hnodup⟩
    rw [ofJson, hunits]
    simp only [bind, Except.bind, hnames, hentries, (mapM_eq_ok_iff _ _ _).2 hcalls]

theorem names_of_ofJson {value : Json} {d : CallDocument} (h : ofJson value = .ok d) :
    value.unitNames = d.names := by
  obtain ⟨hunits, -, -⟩ := ofJson_eq_ok_iff.1 h
  rw [Json.unitNames, hunits]
  simp [List.filterMap_map]

theorem calls_of_ofJson {value : Json} {d : CallDocument} (h : ofJson value = .ok d) :
    value.namedCalls = d.calls := by
  obtain ⟨-, -, entries, hentries, hcalls⟩ := ofJson_eq_ok_iff.1 h
  have hread : entries.filterMap (fun entry => (readCall entry).toOption) = d.calls := by
    clear h hentries
    generalize d.calls = calls at hcalls
    induction hcalls with
    | nil => rfl
    | cons hcall _ ih => rw [List.filterMap_cons, hcall, ih]; rfl
  cases hmember : value.member? "calls" with
  | none =>
      rw [hmember] at hentries
      cases hentries
      rw [Json.namedCalls, hmember]
      exact hread
  | some v =>
      rw [hmember] at hentries
      cases hentries
      rw [Json.namedCalls, hmember]
      exact hread

end CallDocument

/-! ### The graph of a document -/

@[simp] theorem CodeUnit.qualified_ofQualified (name : String) :
    (CodeUnit.ofQualified name).qualified = name := by
  rw [CodeUnit.ofQualified, CodeUnit.qualifiedAs]
  split
  · rename_i hempty
    rw [beq_iff_eq] at hempty
    subst hempty
    rfl
  · rfl

theorem CodeUnit.same_ofQualified (a b : String) :
    (CodeUnit.ofQualified a).same (CodeUnit.ofQualified b) = (a == b) := by
  simp [CodeUnit.same]

namespace NamedCall

/-- The call between units that a call between names stands for. -/
def call (c : NamedCall) : Call := ⟨.ofQualified c.caller, .ofQualified c.callee, c.count⟩

/-- The sum of the counts of all calls of a list from one name to another. -/
def pairCount (calls : List NamedCall) (caller callee : String) : Int :=
  (calls.map fun c => if c.caller = caller ∧ c.callee = callee then c.count else 0).sum

theorem tally_map_call (calls : List NamedCall) (a b : CodeUnit) :
    Call.tally (calls.map call) a b = pairCount calls a.qualified b.qualified := by
  simp [Call.tally, pairCount, Call.joins, CodeUnit.same, call, Function.comp_def]

end NamedCall

namespace CallDocument

/-- The graph of a document records its calls. -/
theorem graph_eq_ofHistory (d : CallDocument) : d.graph =
    CallGraph.ofHistory (d.names.map CodeUnit.ofQualified) (d.calls.map NamedCall.call) := by
  rw [graph, CallGraph.ofHistory, List.foldl_map]
  rfl

/-- A name stands for a listed unit when it is listed. -/
theorem exists_same_ofQualified {names : List String} {u : CodeUnit} :
    (∃ v ∈ names.map CodeUnit.ofQualified, v.same u = true) ↔ u.qualified ∈ names := by
  simp [CodeUnit.same]

/-- The entries of the graph are of two different names, and have the counts of their pairs. -/
theorem count_of_mem_graph {d : CallDocument} {e : Call} (he : e ∈ d.graph.calls) :
    e.caller.qualified ≠ e.callee.qualified ∧
      e.count = NamedCall.pairCount d.calls e.caller.qualified e.callee.qualified := by
  rw [graph_eq_ofHistory] at he
  obtain ⟨-, -, -, -, hself⟩ := CallGraph.exists_of_mem_calls he
  rw [← Bool.not_eq_true, CodeUnit.same_iff] at hself
  exact ⟨hself, by rw [CallGraph.count_of_mem he, NamedCall.tally_map_call]⟩

end CallDocument

end Cohesion
