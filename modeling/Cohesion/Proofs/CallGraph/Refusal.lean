/-
Which call graphs are refused.

What is looked at when a coupling matrix is made is a pair of names, not an entry of the document:
the entries of a pair were added up, and entries from a name to itself have left no trace.  A pair
is bad if one of its names is not listed or its counts add up to less than nothing, and it is out of
range if its names are listed and the sum is too large for a word or, below zero, too long for a
message.  The pairs are looked at in the order of their first entries, and the first one that is bad
or out of range ends the attempt: with the message of a faulty call graph, if it is not out of
range.

So an entry can be bad on its own and be accepted: a call of an unlisted name to itself, or a
negative count that the other entries of its pair outweigh.

Main definitions:
* `Json.IsBad`, `Json.IsOutOfRange` — what is wrong with a pair of names;
* `Json.faultyPair` — a pair for which there is no matrix.

Main results:
* `CallDocument.find?_ends_graph` — the first edge that is refused is of the first such entry;
* `CallDocument.ofGraph_outcome` — **which documents are refused, and which of them as faulty**;
* `CallDocument.bad_entries_accepted` — entries that are bad on their own are not always refused.
-/
import Cohesion.Proofs.CallGraph.Reading
import Cohesion.Proofs.Coupling.Rejection

set_option autoImplicit false

namespace Cohesion

open NamedCall (pairCount)

/-! ### Pairs of names -/

namespace Json

/-- The calls between two different names are bad: one of the names is not listed, or the counts add
up to less than nothing. -/
def IsBad (value : Json) (caller callee : String) : Prop :=
  caller ≠ callee ∧ (caller ∉ value.unitNames ∨ callee ∉ value.unitNames ∨
    pairCount value.namedCalls caller callee < 0)

/-- The calls between two different names that are listed are out of range: the counts add up to
more than a word holds, or to less than nothing with too many digits for a message. -/
def IsOutOfRange (value : Json) (caller callee : String) : Prop :=
  caller ≠ callee ∧ caller ∈ value.unitNames ∧ callee ∈ value.unitNames ∧
    (2 ^ 63 ≤ pairCount value.namedCalls caller callee ∨
      pairCount value.namedCalls caller callee < 0 ∧
        isWritable (pairCount value.namedCalls caller callee) = false)

variable (value : Json) (caller callee : String)

instance : Decidable (value.IsBad caller callee) := inferInstanceAs (Decidable (_ ∧ _))

instance : Decidable (value.IsOutOfRange caller callee) := inferInstanceAs (Decidable (_ ∧ _))

/-- A pair of names for which there is no matrix. -/
def faultyPair (pair : String × String) : Bool :=
  decide (value.IsBad pair.1 pair.2 ∨ value.IsOutOfRange pair.1 pair.2)

end Json

theorem find?_eraseDups {α : Type} [BEq α] [LawfulBEq α] [DecidableEq α] (p : α → Bool)
    (xs : List α) : xs.eraseDups.find? p = xs.find? p := by
  induction xs using List.reverseRecOn with
  | nil => rfl
  | append_singleton xs a ih =>
      rw [eraseDups_concat, List.find?_append]
      split
      · rename_i hmem
        cases hfound : xs.find? p with
        | some x => rw [ih, hfound]; rfl
        | none =>
            have ha := List.find?_eq_none.1 hfound a hmem
            rw [ih, hfound, List.find?_cons_of_neg ha]
            rfl
      · rw [List.find?_append, ih]

namespace CallDocument

variable {value : Json} {d : CallDocument} (h : ofJson value = .ok d)

include h

/-! ### Edges and entries -/

/-- The first edge for which there is no matrix is of the first entry of such a pair. -/
theorem find?_ends_graph : (d.graph.calls.map Call.ends).find? value.faultyPair =
    (value.namedCalls.map fun c => (c.caller, c.callee)).find? value.faultyPair := by
  have hdifferent : ∀ pair, value.faultyPair pair = true → pair.1 ≠ pair.2 := by
    intro pair hpair
    rcases of_decide_eq_true hpair with hbad | hout
    · exact hbad.1
    · exact hout.1
  rw [(holds_graph d).edges, find?_eraseDups, List.find?_map, List.find?_filter, List.find?_map,
    calls_of_ofJson h]
  congr 2
  funext c
  rw [Function.comp_apply, Bool.eq_iff_iff]
  simpa using hdifferent (c.caller, c.callee)

theorem listed_iff {u : CodeUnit} : u.Listed d.graph.units ↔ u.qualified ∈ value.unitNames := by
  rw [graph_eq_ofHistory, CallGraph.units_ofHistory, CodeUnit.Listed, exists_same_ofQualified,
    names_of_ofJson h]

section

variable {e : Call} (he : e ∈ d.graph.calls)

include he

/-- An edge is out of range if its pair is. -/
theorem outOfRange_iff :
    e.OutOfRange d.graph.units ↔ value.IsOutOfRange e.ends.1 e.ends.2 := by
  obtain ⟨hne, hcount⟩ := count_of_mem_graph he
  have hself : e.caller.same e.callee = false := by simpa [CodeUnit.same] using hne
  rw [← calls_of_ofJson h] at hcount
  rw [Json.IsOutOfRange, Call.ends, ← hcount, ← listed_iff h, ← listed_iff h]
  constructor
  · rintro ⟨hcaller, hcallee, hneg | ⟨hlarge, -⟩⟩
    · exact ⟨hne, hcaller, hcallee, Or.inr hneg⟩
    · exact ⟨hne, hcaller, hcallee, Or.inl hlarge⟩
  · rintro ⟨-, hcaller, hcallee, hlarge | hneg⟩
    · exact ⟨hcaller, hcallee, Or.inr ⟨hlarge, hself⟩⟩
    · exact ⟨hcaller, hcallee, Or.inl hneg⟩

/-- An edge can be entered if its pair is neither bad nor out of range. -/
theorem acceptable_iff : e.Acceptable d.graph.units ↔ value.faultyPair e.ends = false := by
  obtain ⟨hne, hcount⟩ := count_of_mem_graph he
  have hself : e.caller.same e.callee = false := by simpa [CodeUnit.same] using hne
  rw [← calls_of_ofJson h] at hcount
  rw [Json.faultyPair, decide_eq_false_iff_not, not_or, Json.IsBad, Json.IsOutOfRange, Call.ends,
    ← hcount, ← listed_iff h, ← listed_iff h]
  constructor
  · intro hok
    have hnonneg := hok.nonneg
    have hfits := hok.fits
    refine ⟨?_, ?_⟩
    · rintro ⟨-, hcaller | hcallee | hneg⟩
      · exact hcaller hok.caller
      · exact hcallee hok.callee
      · omega
    · rintro ⟨-, -, -, hlarge | ⟨hneg, -⟩⟩ <;> omega
  · rintro ⟨hbad, hout⟩
    have hcaller : e.caller.Listed d.graph.units := by
      by_contra hnot
      exact hbad ⟨hne, Or.inl hnot⟩
    have hcallee : e.callee.Listed d.graph.units := by
      by_contra hnot
      exact hbad ⟨hne, Or.inr (Or.inl hnot)⟩
    have hnonneg : 0 ≤ e.count := not_lt.1 fun hneg => hbad ⟨hne, Or.inr (Or.inr hneg)⟩
    have hfits : e.count < 2 ^ 63 :=
      not_le.1 fun hlarge => hout ⟨hne, hcaller, hcallee, Or.inl hlarge⟩
    exact ⟨hcaller, hcallee, hnonneg, by simp [hself], hfits⟩

/-- An edge is refused as faulty if its pair is bad and not out of range. -/
theorem malformed_iff :
    (∃ error, CouplingMatrix.increment? d.graph.units.toArray e = .error error ∧
      error.isMalformed = true) ↔
        value.faultyPair e.ends = true ∧ ¬value.IsOutOfRange e.ends.1 e.ends.2 := by
  rw [← outOfRange_iff h he, ← Bool.not_eq_false, ← acceptable_iff h he]
  constructor
  · rintro ⟨error, herror, hmalformed⟩
    have hfault := CouplingMatrix.increment?_eq_error_iff.1 herror
    refine ⟨hfault.not_acceptable, fun hout => ?_⟩
    rw [← hfault.isMalformed_eq_false_iff, hmalformed] at hout
    cases hout
  · rintro ⟨hnot, hout⟩
    obtain ⟨error, herror, hfault⟩ | ⟨-, -, hok, -⟩ :=
      CouplingMatrix.increment?_cases d.graph.units.toArray e
    · rw [← hfault.isMalformed_eq_false_iff, Bool.not_eq_false] at hout
      exact ⟨error, herror, hout⟩
    · exact absurd hok hnot

end

/-! ### Documents -/

/-- The units of a document are different. -/
theorem pairwise_units : d.graph.units.Pairwise fun u v => u.same v = false := by
  obtain ⟨-, hnodup, -⟩ := ofJson_eq_ok_iff.1 h
  rw [graph_eq_ofHistory, CallGraph.units_ofHistory, List.pairwise_map]
  refine hnodup.imp fun {a b} hab => ?_
  rw [CodeUnit.same_ofQualified]
  exact beq_eq_false_iff_ne.2 hab

theorem firstRepeated?_units : CouplingMatrix.firstRepeated? [] d.graph.units = none :=
  CouplingMatrix.firstRepeated?_nil_eq_none_iff.2 (pairwise_units h)

/-- There is a matrix if no pair is bad or out of range. -/
theorem exists_matrix_iff : (∃ m, CouplingMatrix.ofGraph d.graph = .ok m) ↔
    (value.namedCalls.map fun c => (c.caller, c.callee)).find? value.faultyPair = none := by
  rw [← find?_ends_graph h, CouplingMatrix.ofGraph, CouplingMatrix.exists_build_iff,
    and_iff_right (pairwise_units h), List.find?_eq_none, List.forall_mem_map]
  simp only [Bool.not_eq_true]
  exact forall₂_congr fun e he => acceptable_iff h he

/-- The first pair that is bad or out of range decides whether the graph is faulty. -/
theorem exists_malformed_iff :
    (∃ e, CouplingMatrix.ofGraph d.graph = .error e ∧ e.isMalformed = true) ↔
      ∃ pair, (value.namedCalls.map fun c => (c.caller, c.callee)).find? value.faultyPair =
        some pair ∧ ¬value.IsOutOfRange pair.1 pair.2 := by
  rw [← find?_ends_graph h, List.find?_map, CouplingMatrix.ofGraph]
  simp only [CouplingMatrix.build_eq_error_iff (firstRepeated?_units h), Option.map_eq_some_iff,
    List.find?_eq_some_iff_append, Function.comp_apply, Bool.not_eq_true']
  constructor
  · rintro ⟨e, ⟨front, c, back, heq, hfront, hc⟩, hmalformed⟩
    have hc' : c ∈ d.graph.calls := by simp [heq]
    have hfront' : ∀ b ∈ front, b ∈ d.graph.calls := by simp +contextual [heq]
    obtain ⟨hfaulty, hout⟩ := (malformed_iff h hc').1 ⟨e, hc, hmalformed⟩
    exact ⟨c.ends, ⟨c, ⟨hfaulty, front, back, heq,
      fun b hb => (acceptable_iff h (hfront' b hb)).1 (hfront b hb)⟩, rfl⟩, hout⟩
  · rintro ⟨_, ⟨c, ⟨hfaulty, front, back, heq, hfront⟩, rfl⟩, hout⟩
    have hc' : c ∈ d.graph.calls := by simp [heq]
    have hfront' : ∀ b ∈ front, b ∈ d.graph.calls := by simp +contextual [heq]
    obtain ⟨e, hc, hmalformed⟩ := (malformed_iff h hc').2 ⟨hfaulty, hout⟩
    exact ⟨e, ⟨front, c, back, heq,
      fun b hb => (acceptable_iff h (hfront' b hb)).2 (hfront b hb), hc⟩, hmalformed⟩

/-- **Which documents are refused, and which of them as faulty.**  There is a matrix exactly if no
call is of a pair that is bad or out of range.  The document is refused as a faulty call graph
exactly if the first call of such a pair is of one that is not out of range, whatever the calls
behind it are. -/
theorem ofGraph_outcome :
    ((∃ m, CouplingMatrix.ofGraph d.graph = .ok m) ↔
      ∀ c ∈ value.namedCalls, ¬value.IsBad c.caller c.callee ∧
        ¬value.IsOutOfRange c.caller c.callee) ∧
    ((∃ e, CouplingMatrix.ofGraph d.graph = .error e ∧ e.isMalformed = true) ↔
      ∃ front c back, value.namedCalls = front ++ c :: back ∧
        (∀ b ∈ front, ¬value.IsBad b.caller b.callee ∧ ¬value.IsOutOfRange b.caller b.callee) ∧
        value.IsBad c.caller c.callee ∧ ¬value.IsOutOfRange c.caller c.callee) := by
  have hfaulty : ∀ pair, value.faultyPair pair = true ↔
      value.IsBad pair.1 pair.2 ∨ value.IsOutOfRange pair.1 pair.2 := fun _ => decide_eq_true_iff
  constructor
  · rw [exists_matrix_iff h, List.find?_eq_none, List.forall_mem_map]
    simp only [hfaulty, not_or]
  · rw [exists_malformed_iff h, List.find?_map]
    simp only [Option.map_eq_some_iff, List.find?_eq_some_iff_append, Function.comp_apply,
      Bool.not_eq_true', ← Bool.not_eq_true, hfaulty, not_or]
    constructor
    · rintro ⟨_, ⟨c, ⟨hc, front, back, heq, hfront⟩, rfl⟩, hout⟩
      exact ⟨front, c, back, heq, hfront, hc.resolve_right hout, hout⟩
    · rintro ⟨front, c, back, heq, hfront, hbad, hout⟩
      exact ⟨_, ⟨c, ⟨Or.inl hbad, front, back, heq, hfront⟩, rfl⟩, hout⟩

end CallDocument

/-! ### Small documents -/

namespace CallDocument

/-- A JSON value with these names and calls. -/
def toJson (d : CallDocument) : Json :=
  .obj [("units", .arr (d.names.map .str)),
    ("calls", .arr (d.calls.map fun c => .arr [.str c.caller, .str c.callee, .int c.count]))]

theorem ofJson_toJson {d : CallDocument} (hnodup : d.names.Nodup) : ofJson d.toJson = .ok d := by
  refine ofJson_eq_ok_iff.2 ⟨rfl, hnodup, _, rfl, ?_⟩
  rw [List.forall₂_map_left_iff]
  exact List.forall₂_same.2 fun _ _ => rfl

/-- A call of a unit that is not listed, before a count that is too large for a word. -/
def ghostly : CallDocument where
  names := ["A", "B"]
  calls := [⟨"A", "B", 3⟩, ⟨"A", "Ghost", 1⟩, ⟨"B", "A", 2 ^ 63⟩]

theorem ofGraph_outcome_ghostly :
    ∃ e, CouplingMatrix.ofGraph ghostly.graph = .error e ∧ e.isMalformed = true :=
  (ofGraph_outcome (ofJson_toJson (d := ghostly) (by decide))).2.2
    ⟨[⟨"A", "B", 3⟩], ⟨"A", "Ghost", 1⟩, [⟨"B", "A", 2 ^ 63⟩], by decide, by decide, by decide,
      by decide⟩

/-- A unit that is not listed and calls itself. -/
def haunted : CallDocument where
  names := ["A", "B"]
  calls := [⟨"Ghost", "Ghost", 1⟩]

/-- A negative count that another one outweighs. -/
def outweighed : CallDocument where
  names := ["A", "B"]
  calls := [⟨"A", "B", 3⟩, ⟨"A", "B", -1⟩]

/-- A count that is too large for a word, before a call of a unit that is not listed. -/
def overflowing : CallDocument where
  names := ["A", "B"]
  calls := [⟨"A", "B", 2 ^ 63⟩, ⟨"A", "Ghost", 1⟩]

/-- Two negative counts that can be written, unlike their sum. -/
def unwritable : CallDocument where
  names := ["A", "B"]
  calls := List.replicate 2 ⟨"A", "B", .negOfNat (5 * 10 ^ 4299)⟩

/-- The sum of the two counts is refused because it has too many digits. -/
theorem exists_ofGraph_unwritable :
    ∃ e, CouplingMatrix.ofGraph unwritable.graph = .error e ∧ e.isMalformed = false := by
  have hentry : unwritable.graph.calls =
      [⟨.ofQualified "A", .ofQualified "B", .negOfNat (10 ^ 4300)⟩] := by decide +kernel
  refine CouplingMatrix.exists_outOfRange_iff.2 ⟨by decide +kernel, [], _, [], hentry, by simp, ?_⟩
  exact ⟨by decide +kernel, by decide +kernel, Or.inl (by decide +kernel)⟩

/-- Not every entry that is bad on its own is refused: not a call of an unlisted unit to itself, nor
a negative count that is outweighed.  And what is refused is not always refused as faulty. -/
theorem bad_entries_accepted :
    (∃ m, ofJson haunted.toJson = .ok haunted ∧
      (∃ c ∈ haunted.toJson.namedCalls, c.caller ∉ haunted.toJson.unitNames) ∧
      CouplingMatrix.ofGraph haunted.graph = .ok m) ∧
    (∃ m, ofJson outweighed.toJson = .ok outweighed ∧
      (∃ c ∈ outweighed.toJson.namedCalls, c.count < 0) ∧
      CouplingMatrix.ofGraph outweighed.graph = .ok m) ∧
    (∃ e, ofJson overflowing.toJson = .ok overflowing ∧
      (∃ c ∈ overflowing.toJson.namedCalls, c.callee ∉ overflowing.toJson.unitNames) ∧
      CouplingMatrix.ofGraph overflowing.graph = .error e ∧ e.isMalformed = false) ∧
    ∃ e, ofJson unwritable.toJson = .ok unwritable ∧
      (∃ c ∈ unwritable.toJson.namedCalls, c.count < 0) ∧
      CouplingMatrix.ofGraph unwritable.graph = .error e ∧ e.isMalformed = false := by
  obtain ⟨e, he, hlimit⟩ := exists_ofGraph_unwritable
  refine ⟨⟨_, ofJson_toJson (by decide), ?_, by with_unfolding_all rfl⟩,
    ⟨_, ofJson_toJson (by decide), ?_, by with_unfolding_all rfl⟩,
    ⟨_, ofJson_toJson (by decide), ?_, by with_unfolding_all rfl, rfl⟩,
    ⟨e, ofJson_toJson (by decide), ?_, he, hlimit⟩⟩
  · exact ⟨⟨"Ghost", "Ghost", 1⟩, by decide, by decide⟩
  · exact ⟨⟨"A", "B", -1⟩, by decide, by decide⟩
  · exact ⟨⟨"A", "Ghost", 1⟩, by decide, by decide⟩
  · exact ⟨⟨"A", "B", .negOfNat (5 * 10 ^ 4299)⟩, by decide +kernel, by decide +kernel⟩

end CallDocument

end Cohesion
