/-
Decoding a report.

What is written as a JSON document is read back, and the document tells what the analysis found: the
qualified names of the pairs and their calls, the members of each module, the units, and the calls
between methods, each if its section is shown.  No name is changed on the way, whatever its
characters are.  But a threshold may be infinite or no number at all, and then its name stands in
the text, which the standard does not have: such a text is read back by this reader and rejected by
every reader that keeps to the standard.

Main definitions:
* `Report.readPairs?`, `Report.readModules?`, `Report.readUnits?`, `Report.readMethodCalls?` — what is
  decoded from a document;
* `Report.Tells` — what is decoded is what the analysis found.

Main results:
* `Report.render_json_eq_ok_iff` — when there is a document, and which;
* `Report.tells_document` — the document tells what the analysis found;
* `Report.decodes_render` — **what is written is read back, and it belongs to the standard exactly if
  the threshold is finite**.
-/
import Cohesion.Proofs.Coupling.Pairs
import Cohesion.Proofs.Json.Letters
import Cohesion.Proofs.Json.RoundTrip
import Cohesion.Proofs.Report.Documents

set_option autoImplicit false

namespace Cohesion

/-! ### Decoding -/

namespace Json

/-- The text of a value. -/
def text? : Json → Option String
  | .str s => some s
  | _ => none

/-- The integer that a value is. -/
def integer? : Json → Option Int
  | .int n => some n
  | _ => none

/-- The items of a list. -/
def items? : Json → Option (List Json)
  | .arr items => some items
  | _ => none

/-- The members of an object. -/
def members? : Json → Option (List (String × Json))
  | .obj members => some members
  | _ => none

/-- The texts in a list. -/
def texts? (v : Json) : Option (List String) := do (← v.items?).mapM text?

end Json

namespace Report

open Json

/-- The names and the calls of a coupled pair. -/
def readPair? (row : Json) : Option (String × String × Int) := do
  let a ← (← row.member? "a").text?
  let b ← (← row.member? "b").text?
  let calls ← (← row.member? "calls").integer?
  some (a, b, calls)

/-- The names and the calls of all coupled pairs. -/
def readPairs? (doc : Json) : Option (List (String × String × Int)) := do
  (← (← doc.member? "coupling").items?).mapM readPair?

/-- The names of the units of a module. -/
def readModule? (M : Json) : Option (List String) := do (← M.member? "units").texts?

/-- The names of the units of each module. -/
def readModules? (doc : Json) : Option (List (List String)) := do
  (← (← (← doc.member? "modules").member? "items").items?).mapM readModule?

/-- The name of a unit. -/
def readUnit? (u : Json) : Option String := do (← u.member? "name").text?

/-- The names of the units. -/
def readUnits? (doc : Json) : Option (List String) := do
  (← (← doc.member? "classes").items?).mapM readUnit?

/-- A caller with its callees. -/
def readCaller? (entry : String × Json) : Option (String × List String) := do
  some (entry.1, ← entry.2.texts?)

/-- The callers with their callees. -/
def readMethodCalls? (doc : Json) : Option (List (String × List String)) := do
  (← (← doc.member? "method_calls").members?).mapM readCaller?

/-- A number that is told about the whole analysis. -/
def readTotal? (name : String) (doc : Json) : Option Int := do
  (← (← doc.member? "meta").member? name).integer?

/-- What is decoded is what an analysis found, for each section that is shown. -/
structure Tells (doc : Json) (m : CouplingMatrix) (threshold : Binary64) (calls : MethodCalls)
    (sections : List Section) : Prop where
  /-- The number of units. -/
  unitCount : readTotal? "unit_count" doc = some m.units.size
  /-- The number of all calls. -/
  totalCalls : readTotal? "total_calls" doc = some m.total.toInt
  /-- The coupled pairs have their qualified names and their calls in both directions. -/
  pairs : readPairs? doc = if .coupling ∈ sections then
    some (m.pairs.map fun p => (p.first.qualified, p.second.qualified, m.bothWays p)) else none
  /-- The modules at the threshold have the qualified names of their units. -/
  modules : readModules? doc = if .modules ∈ sections then
    some (((Dendrogram.ofMatrix m).cut m threshold).modules.map fun M =>
      M.units.map (·.qualified)) else none
  /-- The units have their qualified names. -/
  units : readUnits? doc = if .tree ∈ sections then
    some (m.units.toList.map (·.qualified)) else none
  /-- The callers have their callees. -/
  methodCalls : readMethodCalls? doc = if .calls ∈ sections then some calls.entries else none

/-! ### Documents -/

theorem mapM_map_eq_some {α β γ : Type} {f : α → β} {g : β → Option γ} {h : α → γ}
    (hg : ∀ a, g (f a) = some (h a)) (list : List α) :
    (list.map f).mapM g = some (list.map h) := by
  induction list with
  | nil => rfl
  | cons a list ih => simp [hg, ih]

theorem texts?_map {α : Type} (f : α → String) (list : List α) :
    (Json.arr (list.map fun a => .str (f a))).texts? = some (list.map f) :=
  mapM_map_eq_some (g := text?) (fun _ => rfl) list

variable {a : Analysis} {m : CouplingMatrix}

/-- The document tells what the analysis found. -/
theorem tells_document (h : a.IsOf m) (path : Path) (threshold : Binary64) (calls : MethodCalls)
    (sections : List Section) (timestamp : String) :
    Tells ((ofAnalysis a path threshold calls).document sections timestamp) m threshold calls
      sections := by
  have hmember := (ofAnalysis a path threshold calls).member?_document sections timestamp
  have hmeta := (ofAnalysis a path threshold calls).member?_document_meta sections timestamp
  generalize (ofAnalysis a path threshold calls).document sections timestamp = doc at *
  obtain rfl := h.matrix_eq
  constructor
  case unitCount =>
    rw [readTotal?, hmeta, ← Array.length_toList]
    rfl
  case totalCalls =>
    rw [readTotal?, hmeta]
    rfl
  case pairs =>
    have hcoupling : doc.member? "coupling" = if .coupling ∈ sections then
        some (.arr ((couplingRows a.matrix).map rowJson)) else none := hmember .coupling
    rw [readPairs?, hcoupling]
    split
    · rw [couplingRows, List.map_map]
      exact mapM_map_eq_some (g := readPair?) (fun _ => rfl) _
    · rfl
  case modules =>
    have hmodules : doc.member? "modules" = if .modules ∈ sections then
        some ((ofAnalysis a path threshold calls).sectionMember .modules).2 else none :=
      hmember .modules
    rw [readModules?, hmodules, ← h.identify_eq threshold]
    split
    · have hmodule : ∀ M : Module, readModule? (moduleJson M) = some (M.units.map (·.qualified)) :=
        fun M => texts?_map _ M.units
      exact mapM_map_eq_some hmodule _
    · rfl
  case units =>
    have htree : doc.member? "classes" = if .tree ∈ sections then
        some (.arr (a.matrix.units.toList.map unitJson)) else none := hmember .tree
    rw [readUnits?, htree]
    split
    · exact mapM_map_eq_some (g := readUnit?) (fun _ => rfl) _
    · rfl
  case methodCalls =>
    have hcalls : doc.member? "method_calls" = if .calls ∈ sections then
        some ((ofAnalysis a path threshold calls).sectionMember .calls).2 else none :=
      hmember .calls
    rw [readMethodCalls?, hcalls]
    split
    · have hentry : ∀ entry : String × List String,
          readCaller? (entry.1, .arr (entry.2.map .str)) = some entry := by
        intro entry
        rw [readCaller?, texts?_map (fun s => s), List.map_id']
        rfl
      have hread := mapM_map_eq_some hentry calls.entries
      rw [List.map_id'] at hread
      exact hread
    · rfl

/-! ### Reports -/

variable {r : Report} {sections : List Section} {timestamp text : String}

/-- When there is a document: the averages are floating-point numbers, and the integers have few
enough digits. -/
theorem render_json_eq_ok_iff : r.render .json sections timestamp = .ok text ↔
    (∀ s ∈ sections, s.averagesFit r.units = true) ∧
      (r.document sections timestamp).integersFit = true ∧
        text = (r.document sections timestamp).write (.indented 2) := by
  rw [← List.all_eq_true, render, fault?]
  cases havg : sections.all (·.averagesFit r.units) with
  | false => simp
  | true =>
      cases hfit : (r.document sections timestamp).integersFit with
      | false => simp
      | true => simp [eq_comm]

/-- The calls that a report of an analysis tells are words and sums of two words. -/
theorem natAbs_calls_le (a : Analysis) (path : Path) (threshold : Binary64) (calls : MethodCalls) :
    (ofAnalysis a path threshold calls).totalCalls.natAbs ≤ 2 ^ 64 ∧
      ∀ row ∈ (ofAnalysis a path threshold calls).rows, row.calls.natAbs ≤ 2 ^ 64 := by
  have hword : ∀ w : Int64, w.toInt.natAbs ≤ 2 ^ 63 := by
    intro w
    have hlow := w.le_toInt
    have hhigh := w.toInt_lt
    omega
  refine ⟨(hword _).trans (by decide), fun row hrow => ?_⟩
  obtain ⟨p, -, rfl⟩ := List.mem_map.1 hrow
  have hthere := hword (a.matrix.calls p.first p.second)
  have hback := hword (a.matrix.calls p.second p.first)
  dsimp only
  omega

/-- **When there is a document of an analysis**: the averages of the statistics are floating-point
numbers, and the integers in it have few enough digits. -/
theorem exists_render_json_iff (a : Analysis) (path : Path) (threshold : Binary64)
    (calls : MethodCalls) (sections : List Section) (timestamp : String) :
    let r := ofAnalysis a path threshold calls
    (∃ text, r.render .json sections timestamp = .ok text) ↔
      (∀ s ∈ sections, s.averagesFit r.units = true) ∧ isWritable r.units.length = true ∧
        ∀ s ∈ sections, ∀ n ∈ r.integers s, isWritable n = true := by
  intro r
  obtain ⟨htotal, hrows⟩ := natAbs_calls_le a path threshold calls
  have hfit : (r.document sections timestamp).integersFit = true ↔ _ :=
    integersFit_document htotal hrows
  rw [← hfit]
  constructor
  · rintro ⟨text, hrender⟩
    obtain ⟨havg, hfit, -⟩ := render_json_eq_ok_iff.1 hrender
    exact ⟨havg, hfit⟩
  · rintro ⟨havg, hfit⟩
    exact ⟨_, render_json_eq_ok_iff.2 ⟨havg, hfit, rfl⟩⟩

/-- The integers of a report on a small call graph are small. -/
theorem natAbs_integers_square (hm : CouplingMatrix.ofGraph .square = .ok m) (path : Path)
    (threshold : Binary64) (calls : MethodCalls) (s : Section) {n : Int}
    (hn : n ∈ (ofAnalysis (.ofMatrix m) path threshold calls).integers s) : n.natAbs ≤ 2 ^ 64 := by
  have hlist : m.units.toList = CallGraph.square.units := CouplingMatrix.toList_units_of_build hm
  have hunits : (ofAnalysis (.ofMatrix m) path threshold calls).units = CallGraph.square.units :=
    hlist
  cases s with
  | coupling => cases hn
  | calls => cases hn
  | modules =>
      have hpartition := Dendrogram.isPartition_cut
        (CouplingMatrix.bounded_of_build hm (by decide))
        (by rw [CouplingMatrix.size_of_build hm]; decide) (by rw [hlist]; decide) threshold
      obtain ⟨M, hM, rfl⟩ := List.mem_map.1 hn
      have hnumber := List.mem_map_of_mem (f := Module.number) hM
      have hcut : (ofAnalysis (.ofMatrix m) path threshold calls).cut =
          (Dendrogram.ofMatrix m).cut m threshold := rfl
      have hle : ((Dendrogram.ofMatrix m).cut m threshold).modules.length ≤ 4 :=
        hpartition.le.trans (hlist ▸ le_refl 4)
      rw [hcut, hpartition.numbers, List.mem_range'_1] at hnumber
      omega
  | stats =>
      simp only [integers, hunits] at hn
      revert n
      decide
  | tree =>
      simp only [integers, hunits] at hn
      revert n
      decide

/-- A caller and a callee whose names have to be escaped. -/
def quotedCalls : MethodCalls where
  entries := [("A.\"\n", ["B.é\\", "C.𝔽"])]
  nodup := by decide

section

variable (h : a.IsOf m) (path : Path) {threshold : Binary64} (hthreshold : threshold.Canonical)
  (calls : MethodCalls)

include h hthreshold

/-- A document of an analysis belongs to the standard exactly if the threshold is finite. -/
theorem isDocument_render_iff
    (hrender : (ofAnalysis a path threshold calls).render .json sections timestamp = .ok text) :
    IsDocument text.toList ↔ threshold.isFinite = true := by
  have hproper := proper_ofAnalysis h path hthreshold calls
  obtain ⟨havg, -, rfl⟩ := render_json_eq_ok_iff.1 hrender
  rw [isDocument_write_iff _ (sound_document le_rfl hproper havg), isFinite_document hproper havg]
  rfl

/-- A document of an analysis is read back, by a reader with room for five levels. -/
theorem parse_render {limit : Nat} (hlimit : 5 ≤ limit)
    (hrender : (ofAnalysis a path threshold calls).render .json sections timestamp = .ok text) :
    Json.parse text.toList limit =
      .ok ((ofAnalysis a path threshold calls).document sections timestamp) := by
  obtain ⟨havg, hfit, rfl⟩ := render_json_eq_ok_iff.1 hrender
  have hproper := proper_ofAnalysis h path hthreshold calls
  exact parse_write _ (sound_document hlimit hproper havg) hfit

/-- **What is written is read back, and it belongs to the standard exactly if the threshold is
finite.**  There is a document if the averages of the statistics are floating-point numbers and the
integers in it have few enough digits.  Every reader with room for five levels reads it. -/
theorem decodes_render (sections : List Section) (timestamp : String) :
    let r := ofAnalysis a path threshold calls
    ((∃ text, r.render .json sections timestamp = .ok text) ↔
      (∀ s ∈ sections, s.averagesFit r.units = true) ∧ isWritable r.units.length = true ∧
        ∀ s ∈ sections, ∀ n ∈ r.integers s, isWritable n = true) ∧
    ∀ text, r.render .json sections timestamp = .ok text →
      (IsDocument text.toList ↔ threshold.isFinite = true) ∧
      ∃ doc, (∀ limit, 5 ≤ limit → Json.parse text.toList limit = .ok doc) ∧
        Tells doc m threshold calls sections := by
  refine ⟨exists_render_json_iff a path threshold calls sections timestamp, ?_⟩
  intro text hrender
  exact ⟨isDocument_render_iff h path hthreshold calls hrender, _,
    fun _ hlimit => parse_render h path hthreshold calls hlimit hrender,
    tells_document h path threshold calls sections timestamp⟩

end

/-- A report with all sections. -/
theorem decodes_render_square : ∃ m text doc, CouplingMatrix.ofGraph .square = .ok m ∧
    (ofAnalysis (.ofMatrix m) (.ofString "square.json") (.ofDecimal false 1 (-1))
      quotedCalls).render .json Section.all "" = .ok text ∧
    IsDocument text.toList ∧ Json.parse text.toList = .ok doc ∧
    Tells doc m (.ofDecimal false 1 (-1)) quotedCalls Section.all := by
  obtain ⟨m, hm⟩ := CouplingMatrix.exists_ofGraph_square
  have hunits : m.units.toList = CallGraph.square.units := CouplingMatrix.toList_units_of_build hm
  have haverages : ∀ s ∈ Section.all, s.averagesFit m.units.toList = true := by
    rw [hunits]
    decide
  have hcount : m.units.toList.length = 4 := congrArg List.length hunits
  obtain ⟨hwritten, hread⟩ := decodes_render (Analysis.isOf_ofMatrix m) (.ofString "square.json")
    (Binary64.canonical_ofDecimal false 1 (-1)) quotedCalls Section.all ""
  obtain ⟨text, hrender⟩ := hwritten.2 ⟨haverages, isWritable_of_le (hcount ▸ by decide),
    fun s _ n hn => isWritable_of_le (natAbs_integers_square hm _ _ _ s hn)⟩
  obtain ⟨hdocument, doc, hparse, htells⟩ := hread text hrender
  exact ⟨m, text, doc, hm, hrender, hdocument.2 (by decide +kernel), hparse _ (by decide), htells⟩

/-- **A document that does not belong to the standard**: that of a report at a threshold which is
accepted and is no number. -/
theorem exists_render_nan : ∃ m text, CouplingMatrix.ofGraph .square = .ok m ∧
    readReal? "nan" = some .nan ∧
    (ofAnalysis (.ofMatrix m) (.ofString "square.json") .nan {}).render .json [] "" = .ok text ∧
    ¬IsDocument text.toList := by
  obtain ⟨m, hm⟩ := CouplingMatrix.exists_ofGraph_square
  have hcount : m.units.toList.length = 4 :=
    congrArg List.length (CouplingMatrix.toList_units_of_build hm)
  have hfew : isWritable m.units.toList.length = true := isWritable_of_le (hcount ▸ by decide)
  have hread : readReal? "nan" = some .nan := by decide +kernel
  obtain ⟨text, hrender⟩ := (exists_render_json_iff (.ofMatrix m) (.ofString "square.json") .nan
    {} [] "").2 ⟨nofun, hfew, nofun⟩
  refine ⟨m, text, hm, hread, hrender, ?_⟩
  rw [isDocument_render_iff (Analysis.isOf_ofMatrix m) _ (Binary64.canonical_readReal hread) {}
    hrender]
  decide

end Report

end Cohesion
