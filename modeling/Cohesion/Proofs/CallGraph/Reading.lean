/-
Reading call documents.

A JSON value is refused as a call document for one of a few reasons: it lists no units, the name of
a unit is no text or is listed twice, the calls are no list, or an entry of them is no call.  Any
other value is read, whatever else it holds, and nothing is lost on the way to the call graph: its
units are the listed names in order, the count of an ordered pair is the sum over all entries of
the pair, in whichever of the two forms they are written, and the edges stand in the order in which
their pairs first appear.  Entries from a name to itself leave no trace.

Main definitions:
* `Json.IsCall`, `Json.BadEntry` — an entry is a call, and what keeps it from being one;
* `Json.Faulty` — the reasons for which a value is refused;
* `CallDocument.IsIn` — a document is the one in a JSON value;
* `CallGraph.Holds` — a graph has the units and the calls of a document.

Main results:
* `CallDocument.readCall_eq_ok_iff` — the entries that are calls;
* `CallDocument.faulty_iff` — the values that are refused;
* `CallGraph.ends_ofHistory` — the pairs of a graph, in the order of their first appearance;
* `CallDocument.ofJson_reads` — **which values are read, and what graph they make**.
-/
import Cohesion.Proofs.CallGraph.Documents
import Mathlib.Data.List.Duplicate
import Mathlib.Data.List.Induction
import Mathlib.Data.List.TakeWhile

set_option autoImplicit false

namespace Cohesion

/-! ### The last part of a name -/

/-- The part of a text after the last occurrence of a character, or the whole text without one. -/
inductive Text.IsLastPart (sep : Char) (part whole : String) : Prop
  | whole (hnone : sep ∉ whole.toList) (heq : part = whole)
  | after (front : List Char) (hsplit : whole.toList = front ++ sep :: part.toList)
      (hnone : sep ∉ part.toList)

theorem Text.isLastPart_afterLast (sep : Char) (s : String) :
    IsLastPart sep (afterLast sep s) s := by
  have htake : ∀ c ∈ s.toList.reverse.takeWhile (· != sep), c ≠ sep := by
    intro c hc
    simpa using List.mem_takeWhile_imp hc
  have hsplit := List.takeWhile_append_dropWhile (p := (· != sep)) (l := s.toList.reverse)
  cases hdrop : s.toList.reverse.dropWhile (· != sep) with
  | nil =>
      rw [hdrop, List.append_nil] at hsplit
      have hwhole : afterLast sep s = s := by
        rw [afterLast, hsplit, List.reverse_reverse, String.ofList_toList]
      refine .whole ?_ hwhole
      intro hmem
      rw [hsplit] at htake
      exact htake sep (List.mem_reverse.2 hmem) rfl
  | cons c rest =>
      have hhead := List.head?_dropWhile_not (· != sep) s.toList.reverse
      rw [hdrop] at hhead hsplit
      obtain rfl : c = sep := by simpa using hhead
      refine .after rest.reverse ?_ ?_
      · have hback := congrArg List.reverse hsplit
        rw [List.reverse_reverse] at hback
        rw [← hback]
        simp [afterLast]
      · intro hmem
        rw [afterLast, String.toList_ofList, List.mem_reverse] at hmem
        exact htake c hmem rfl

/-! ### Entries -/

namespace Json

/-- An object, or a list of two or three things. -/
def HasCallShape : Json → Prop
  | .obj _ => True
  | .arr items => items.length = 2 ∨ items.length = 3
  | _ => False

/-- A part of an entry: under its key in an object, at its place in a list. -/
def part? (key : String) (place : Nat) : Json → Option Json
  | .obj members => members.lookup key
  | .arr items => items[place]?
  | _ => none

/-- An entry is this call; without a count it counts once. -/
structure IsCall (entry : Json) (c : NamedCall) : Prop where
  /-- The entry is an object or a list of two or three things. -/
  shape : entry.HasCallShape
  /-- The caller is a text. -/
  caller : entry.part? "caller" 0 = some (.str c.caller)
  /-- The callee is a text. -/
  callee : entry.part? "callee" 1 = some (.str c.callee)
  /-- The count is an integer, if it is there. -/
  count : (entry.part? "count" 2).getD (.int 1) = .int c.count

/-- An entry is no call. -/
inductive BadEntry (entry : Json) : Prop
  | shape (h : ¬entry.HasCallShape)
  | caller (h : ∀ name, entry.part? "caller" 0 ≠ some (.str name))
  | callee (h : ∀ name, entry.part? "callee" 1 ≠ some (.str name))
  | count {value : Json} (h : entry.part? "count" 2 = some value) (hvalue : ∀ n, value ≠ .int n)

theorem not_isCall_of_badEntry {entry : Json} (hbad : entry.BadEntry) (c : NamedCall) :
    ¬entry.IsCall c := by
  intro hc
  cases hbad with
  | shape h => exact h hc.shape
  | caller h => exact h _ hc.caller
  | callee h => exact h _ hc.callee
  | count h hvalue =>
      have hcount := hc.count
      rw [h, Option.getD_some] at hcount
      exact hvalue _ hcount

theorem exists_isCall {entry : Json} (hgood : ¬entry.BadEntry) : ∃ c, entry.IsCall c := by
  have hshape : entry.HasCallShape := by
    by_contra h
    exact hgood (.shape h)
  obtain ⟨caller, hcaller⟩ : ∃ name, entry.part? "caller" 0 = some (.str name) := by
    by_contra h
    exact hgood (.caller (not_exists.1 h))
  obtain ⟨callee, hcallee⟩ : ∃ name, entry.part? "callee" 1 = some (.str name) := by
    by_contra h
    exact hgood (.callee (not_exists.1 h))
  obtain ⟨n, hn⟩ : ∃ n, (entry.part? "count" 2).getD (.int 1) = .int n := by
    cases hpart : entry.part? "count" 2 with
    | none => exact ⟨1, rfl⟩
    | some value =>
        by_contra h
        exact hgood (.count hpart (not_exists.1 h))
  exact ⟨⟨caller, callee, n⟩, hshape, hcaller, hcallee, hn⟩

end Json

namespace CallDocument

theorem readCall_eq_ok_iff_parts {entry : Json} {c : NamedCall} : readCall entry = .ok c ↔
    entryParts? entry = some (.str c.caller, .str c.callee, .int c.count) := by
  constructor
  · intro h
    unfold readCall at h
    split at h
    · cases h
    · rename_i hparts
      cases h
      exact hparts
    · cases h
    · cases h
  · intro h
    rw [readCall, h]

/-- The entries that are calls. -/
theorem readCall_eq_ok_iff {entry : Json} {c : NamedCall} :
    readCall entry = .ok c ↔ entry.IsCall c := by
  obtain ⟨name, name', n⟩ := c
  rw [readCall_eq_ok_iff_parts]
  constructor
  · intro h
    match entry, h with
    | .obj members, h =>
        simp only [entryParts?, Option.some.injEq, Prod.mk.injEq, Option.getD_eq_iff] at h
        obtain ⟨hcaller, hcallee, hcount⟩ := h
        refine ⟨trivial, ?_, ?_, ?_⟩
        · simpa [Json.part?] using hcaller
        · simpa [Json.part?] using hcallee
        · simpa [Json.part?, Option.getD_eq_iff] using hcount
    | .arr [caller, callee], h =>
        cases h
        exact ⟨Or.inl rfl, rfl, rfl, rfl⟩
    | .arr [caller, callee, count], h =>
        cases h
        exact ⟨Or.inr rfl, rfl, rfl, rfl⟩
  · rintro ⟨hshape, hcaller, hcallee, hcount⟩
    match entry, hshape with
    | .obj members, _ =>
        simp only [Json.part?] at hcaller hcallee hcount
        simp [entryParts?, hcaller, hcallee, hcount]
    | .arr [caller, callee], _ =>
        cases hcaller
        cases hcallee
        cases hcount
        rfl
    | .arr [caller, callee, count], _ =>
        cases hcaller
        cases hcallee
        cases hcount
        rfl
    | .arr [], hshape => simp [Json.HasCallShape] at hshape
    | .arr [_], hshape => simp [Json.HasCallShape] at hshape
    | .arr (_ :: _ :: _ :: _ :: _), hshape => simp [Json.HasCallShape] at hshape

end CallDocument

/-! ### Documents -/

/-- A JSON value is refused as a call document. -/
inductive Json.Faulty (value : Json) : Prop
  | noUnits (h : ∀ units, value.member? "units" ≠ some (.arr units))
  | nameNotText {units : List Json} {unit : Json}
      (h : value.member? "units" = some (.arr units)) (hunit : unit ∈ units)
      (htext : ∀ name, unit ≠ .str name)
  | listedTwice {units : List Json} {name : String}
      (h : value.member? "units" = some (.arr units)) (hname : List.Duplicate (.str name) units)
  | callsNotList {calls : Json} (h : value.member? "calls" = some calls)
      (hcalls : ∀ entries, calls ≠ .arr entries)
  | badEntry {entries : List Json} {entry : Json}
      (h : value.member? "calls" = some (.arr entries)) (hentry : entry ∈ entries)
      (hbad : entry.BadEntry)

/-- The document is the one in a JSON value: its names are the units, and its calls the entries. -/
structure CallDocument.IsIn (d : CallDocument) (value : Json) : Prop where
  /-- The units are texts, each listed once. -/
  names : value.member? "units" = some (.arr (d.names.map .str))
  /-- No name is listed twice. -/
  nodup : d.names.Nodup
  /-- The entries are calls; without entries there are none. -/
  calls : ∃ entries, (value.member? "calls").getD (.arr []) = .arr entries ∧
    List.Forall₂ Json.IsCall entries d.calls

namespace CallDocument

theorem ofJson_eq_ok_iff_isIn {value : Json} {d : CallDocument} :
    ofJson value = .ok d ↔ d.IsIn value := by
  rw [ofJson_eq_ok_iff]
  simp only [readCall_eq_ok_iff]
  exact ⟨fun ⟨hnames, hnodup, hcalls⟩ => ⟨hnames, hnodup, hcalls⟩,
    fun ⟨hnames, hnodup, hcalls⟩ => ⟨hnames, hnodup, hcalls⟩⟩

/-- Units that are texts without repetition are names. -/
theorem exists_names {units : List Json} (htext : ∀ unit ∈ units, ∃ name, unit = .str name)
    (honce : ∀ name, ¬List.Duplicate (.str name) units) :
    ∃ names : List String, units = names.map .str ∧ names.Nodup := by
  obtain ⟨names, rfl⟩ : ∃ names : List String, units = names.map .str := by
    induction units with
    | nil => exact ⟨[], rfl⟩
    | cons unit units ih =>
        rw [List.forall_mem_cons] at htext
        obtain ⟨⟨name, rfl⟩, htext⟩ := htext
        obtain ⟨names, rfl⟩ := ih htext fun other hother => honce other (hother.duplicate_cons _)
        exact ⟨name :: names, rfl⟩
  refine ⟨names, rfl, List.nodup_iff_forall_not_duplicate.2 fun name hname => ?_⟩
  rw [List.duplicate_iff_sublist] at hname
  refine honce name (List.duplicate_iff_sublist.2 ?_)
  simpa using hname.map Json.str

/-- A value that is not faulty holds a document. -/
theorem exists_isIn {value : Json} (hgood : ¬value.Faulty) : ∃ d : CallDocument, d.IsIn value := by
  obtain ⟨units, hunits⟩ : ∃ units, value.member? "units" = some (.arr units) := by
    by_contra h
    exact hgood (.noUnits (not_exists.1 h))
  have htext : ∀ unit ∈ units, ∃ name, unit = .str name := by
    intro unit hunit
    by_contra h
    exact hgood (.nameNotText hunits hunit (not_exists.1 h))
  obtain ⟨names, rfl, hnodup⟩ :=
    exists_names htext fun name hname => hgood (.listedTwice hunits hname)
  obtain ⟨entries, hentries, hgoodEntries⟩ : ∃ entries,
      (value.member? "calls").getD (.arr []) = .arr entries ∧
        ∀ entry ∈ entries, ¬entry.BadEntry := by
    cases hcalls : value.member? "calls" with
    | none => exact ⟨[], rfl, by simp⟩
    | some calls =>
        obtain ⟨entries, rfl⟩ : ∃ entries, calls = .arr entries := by
          by_contra h
          exact hgood (.callsNotList hcalls (not_exists.1 h))
        exact ⟨entries, rfl, fun entry hentry hbad => hgood (.badEntry hcalls hentry hbad)⟩
  obtain ⟨calls, hcalls⟩ : ∃ calls, entries.mapM readCall = .ok calls := by
    refine exists_mapM_eq_ok_iff.2 fun entry hentry => ?_
    obtain ⟨c, hc⟩ := Json.exists_isCall (hgoodEntries entry hentry)
    exact ⟨c, readCall_eq_ok_iff.2 hc⟩
  refine ⟨⟨names, calls⟩, hunits, hnodup, entries, hentries, ?_⟩
  exact ((mapM_eq_ok_iff _ _ _).1 hcalls).imp fun _ _ h => readCall_eq_ok_iff.1 h

/-- What is faulty holds no document. -/
theorem not_isIn_of_faulty {value : Json} (hbad : value.Faulty) (d : CallDocument) :
    ¬d.IsIn value := by
  rintro ⟨hnames, hnodup, entries, hentries, hcalls⟩
  cases hbad with
  | noUnits h => exact h _ hnames
  | nameNotText h hunit htext =>
      cases h.symm.trans hnames
      obtain ⟨name, -, rfl⟩ := List.mem_map.1 hunit
      exact htext name rfl
  | listedTwice h hname =>
      cases h.symm.trans hnames
      have hinj : Function.Injective Json.str := fun a b hab => by cases hab; rfl
      exact List.nodup_iff_forall_not_duplicate.1 (hnodup.map hinj) _ hname
  | callsNotList h hnot =>
      rw [h, Option.getD_some] at hentries
      exact hnot _ hentries
  | @badEntry entries' entry h hentry hbad =>
      rw [h, Option.getD_some] at hentries
      cases hentries
      have hread := (mapM_eq_ok_iff readCall _ _).2
        (hcalls.imp fun _ _ hc => readCall_eq_ok_iff.2 hc)
      obtain ⟨c, hc⟩ := exists_mapM_eq_ok_iff.1 ⟨_, hread⟩ entry hentry
      exact Json.not_isCall_of_badEntry hbad c (readCall_eq_ok_iff.1 hc)

/-- **The values that are refused** are the faulty ones. -/
theorem faulty_iff {value : Json} : value.Faulty ↔ ∃ e, ofJson value = .error e := by
  constructor
  · intro hbad
    cases hread : ofJson value with
    | error e => exact ⟨e, rfl⟩
    | ok d => exact absurd (ofJson_eq_ok_iff_isIn.1 hread) (not_isIn_of_faulty hbad d)
  · rintro ⟨e, he⟩
    by_contra hgood
    obtain ⟨d, hd⟩ := exists_isIn hgood
    cases he.symm.trans (ofJson_eq_ok_iff_isIn.2 hd)

end CallDocument

/-! ### Edges in order -/

/-- A list with one more element, each kept where it first appears. -/
theorem eraseDups_concat {α : Type} [BEq α] [LawfulBEq α] [DecidableEq α] (xs : List α) (a : α) :
    (xs ++ [a]).eraseDups = if a ∈ xs then xs.eraseDups else xs.eraseDups ++ [a] := by
  rw [List.eraseDups_append]
  by_cases h : a ∈ xs
  · simp [List.removeAll, h]
  · simp [List.removeAll, h, List.eraseDups_cons]

namespace Call

/-- The names of the two ends of a call. -/
def ends (c : Call) : String × String := (c.caller.qualified, c.callee.qualified)

theorem joins_iff_ends {c : Call} {x y : CodeUnit} :
    c.joins x y = true ↔ c.ends = (x.qualified, y.qualified) := by
  simp [joins_iff, ends]

/-- A pair takes its place when it is recorded for the first time, and keeps it. -/
theorem ends_record (x y : CodeUnit) (k : Int) (calls : List Call) :
    (record x y k calls).map ends =
      if (x.qualified, y.qualified) ∈ calls.map ends then calls.map ends
      else calls.map ends ++ [(x.qualified, y.qualified)] := by
  induction calls with
  | nil => simp [record, ends]
  | cons c calls ih =>
      rw [record]
      split
      · rename_i hjoins
        have hc : (x.qualified, y.qualified) ∈ (c :: calls).map ends := by
          rw [← joins_iff_ends.1 hjoins]
          exact List.mem_map_of_mem List.mem_cons_self
        rw [if_pos hc]
        rfl
      · rename_i hjoins
        have hc : (x.qualified, y.qualified) ≠ c.ends :=
          fun heq => hjoins (joins_iff_ends.2 heq.symm)
        rw [List.map_cons, ih]
        by_cases hmem : (x.qualified, y.qualified) ∈ calls.map ends
        · rw [if_pos hmem, List.map_cons, if_pos (List.mem_cons_of_mem _ hmem)]
        · have hmem' : (x.qualified, y.qualified) ∉ (c :: calls).map ends := by
            rw [List.map_cons, List.mem_cons, not_or]
            exact ⟨hc, hmem⟩
          rw [if_neg hmem, if_neg hmem']
          rfl

theorem OneEach.nodup_ends {calls : List Call} (h : OneEach calls) : (calls.map ends).Nodup := by
  rw [List.Nodup, List.pairwise_map]
  refine h.imp fun {c d} hcd heq => ?_
  rw [← Bool.not_eq_true] at hcd
  exact hcd (joins_iff_ends.2 heq.symm)

end Call

namespace CallGraph

theorem ofHistory_concat (units : List CodeUnit) (history : List Call) (c : Call) :
    ofHistory units (history ++ [c]) =
      (ofHistory units history).addCall c.caller c.callee c.count := by
  rw [ofHistory, List.foldl_append]
  rfl

/-- **The pairs of a graph are those of its history**, each once, in the order in which they first
appear, but for the calls of units to themselves. -/
theorem ends_ofHistory (units : List CodeUnit) (history : List Call) :
    (ofHistory units history).calls.map Call.ends =
      ((history.filter fun c => !c.caller.same c.callee).map Call.ends).eraseDups := by
  induction history using List.reverseRecOn with
  | nil => rfl
  | append_singleton history c ih =>
      rw [ofHistory_concat, addCall, List.filter_append]
      split
      · rename_i hself
        rw [ih]
        simp [hself]
      · rename_i hself
        have hlast : ([c].filter fun c => !c.caller.same c.callee) = [c] := by simp [hself]
        rw [Call.ends_record, ih, hlast, List.map_append, List.map_singleton, eraseDups_concat]
        simp only [List.mem_eraseDups]
        rfl

end CallGraph

/-! ### The graph of a document -/

/-- A graph has the units and the calls of a document. -/
structure CallGraph.Holds (g : CallGraph) (d : CallDocument) : Prop where
  /-- The units are the listed names, in order. -/
  units : g.units.map (·.qualified) = d.names
  /-- A unit is shown by what comes after the last dot of its name. -/
  names : ∀ u ∈ g.units, Text.IsLastPart '.' u.name u.qualified
  /-- The count of a pair of different names is the sum of the counts of its entries. -/
  callCount : ∀ u v : CodeUnit, u.qualified ≠ v.qualified →
    g.callCount u v = NamedCall.pairCount d.calls u.qualified v.qualified
  /-- Entries from a name to itself contribute nothing. -/
  noSelf : g = CallDocument.graph { d with calls := d.calls.filter fun c => c.caller ≠ c.callee }
  /-- All other entries are counted. -/
  total : g.total = ((d.calls.filter fun c => c.caller ≠ c.callee).map (·.count)).sum
  /-- The edges are the pairs of all other entries, in the order in which they first appear. -/
  edges : g.calls.map Call.ends =
    ((d.calls.filter fun c => c.caller ≠ c.callee).map fun c => (c.caller, c.callee)).eraseDups
  /-- No pair has two edges. -/
  once : (g.calls.map Call.ends).Nodup
  /-- The count of an edge is that of its pair. -/
  counts : ∀ e ∈ g.calls,
    e.count = NamedCall.pairCount d.calls e.caller.qualified e.callee.qualified

namespace CallDocument

theorem filter_map_call (calls : List NamedCall) :
    ((calls.map NamedCall.call).filter fun c => !c.caller.same c.callee) =
      (calls.filter fun c => c.caller ≠ c.callee).map NamedCall.call := by
  rw [List.filter_map]
  congr 1
  refine List.filter_congr fun c _ => ?_
  simp [NamedCall.call, CodeUnit.same, beq_eq_decide]

theorem graph_eq_filter (d : CallDocument) :
    d.graph = graph { d with calls := d.calls.filter fun c => c.caller ≠ c.callee } := by
  rw [graph, graph, List.foldl_filter]
  congr 1
  funext g c
  by_cases hself : c.caller = c.callee
  · simp [CallGraph.addCall, CodeUnit.same, hself]
  · simp [hself]

theorem sum_filter_call (calls : List NamedCall) :
    ((calls.map NamedCall.call).map fun c => if c.caller.same c.callee then 0 else c.count).sum =
      ((calls.filter fun c => c.caller ≠ c.callee).map (·.count)).sum := by
  induction calls with
  | nil => rfl
  | cons c calls ih =>
      rw [List.map_cons, List.map_cons, List.sum_cons, ih]
      by_cases hself : c.caller = c.callee
      · simp [NamedCall.call, CodeUnit.same, hself]
      · simp [NamedCall.call, CodeUnit.same, hself]

/-- The graph of a document has its units and its calls. -/
theorem holds_graph (d : CallDocument) : d.graph.Holds d := by
  have hgraph := graph_eq_ofHistory d
  have hunits : d.graph.units = d.names.map CodeUnit.ofQualified := by
    rw [hgraph, CallGraph.units_ofHistory]
  constructor
  case units =>
    rw [hunits, List.map_map]
    simp [Function.comp_def]
  case names =>
    intro u hu
    rw [hunits] at hu
    obtain ⟨name, -, rfl⟩ := List.mem_map.1 hu
    rw [CodeUnit.qualified_ofQualified]
    exact Text.isLastPart_afterLast '.' name
  case callCount =>
    intro u v huv
    have hdifferent : u.same v = false := by simpa [CodeUnit.same] using huv
    rw [hgraph, CallGraph.callCount_ofHistory hdifferent, NamedCall.tally_map_call]
  case noSelf => exact graph_eq_filter d
  case total => rw [hgraph, CallGraph.total_ofHistory, sum_filter_call]
  case edges =>
    rw [hgraph, CallGraph.ends_ofHistory, filter_map_call, List.map_map]
    congr 2
    funext c
    simp [NamedCall.call, Call.ends]
  case once =>
    rw [hgraph]
    exact (CallGraph.oneEach_ofHistory _ _).nodup_ends
  case counts => exact fun e he => (count_of_mem_graph he).2

/-- **Which JSON values are read, and what graph they make**: a faulty value is refused as a faulty
document, whatever file it comes from, and any other value holds a document, which is read and whose
graph has its units and its calls. -/
theorem ofJson_reads (value : Json) :
    (value.Faulty → ∃ e, ofJson value = .error e ∧
      ∀ source, (LoadError.document source value e).isMalformed = true) ∧
    (¬value.Faulty → ∃ d, ofJson value = .ok d ∧ d.IsIn value ∧ d.graph.Holds d) := by
  constructor
  · intro hbad
    obtain ⟨e, he⟩ := faulty_iff.1 hbad
    exact ⟨e, he, fun _ => rfl⟩
  · intro hgood
    obtain ⟨d, hd⟩ := exists_isIn hgood
    exact ⟨d, ofJson_eq_ok_iff_isIn.2 hd, hd, holds_graph d⟩

/-- Calls in both forms: one without a count, one that takes calls back, one of a unit to itself, and
one of a unit that is not listed. -/
def ledger : Json :=
  .obj [("units", .arr [.str "shop.Order", .str "shop.Invoice"]),
    ("calls", .arr [.obj [("caller", .str "shop.Order"), ("callee", .str "shop.Invoice")],
      .arr [.str "shop.Invoice", .str "Ghost", .int 0],
      .obj [("count", .int (-3)), ("callee", .str "shop.Invoice"), ("caller", .str "shop.Order")],
      .arr [.str "Ghost", .str "Ghost", .int 7]])]

/-- A truth value is no count. -/
def misledger : Json :=
  .obj [("units", .arr [.str "A", .str "B"]), ("calls", .arr [.arr [.str "A", .str "B", .bool true]])]

theorem ofJson_reads_ledger :
    (∃ d, ofJson ledger = .ok d ∧ d.graph.Holds d ∧
      d.graph.calls.map (fun e => (e.ends, e.count)) =
        [(("shop.Order", "shop.Invoice"), -2), (("shop.Invoice", "Ghost"), 0)]) ∧
    misledger.Faulty ∧ ∃ e, ofJson misledger = .error e := by
  have hgood : ¬ledger.Faulty := by
    rw [faulty_iff]
    rintro ⟨e, he⟩
    cases he
  have hbad : misledger.Faulty := by
    have hentry : Json.BadEntry (.arr [.str "A", .str "B", .bool true]) :=
      .count rfl fun n h => by cases h
    exact .badEntry rfl List.mem_cons_self hentry
  obtain ⟨d, hread, -, hholds⟩ := (ofJson_reads ledger).2 hgood
  obtain ⟨e, he, -⟩ := (ofJson_reads misledger).1 hbad
  refine ⟨⟨d, hread, hholds, ?_⟩, hbad, e, he⟩
  cases hread
  decide

end CallDocument

end Cohesion
