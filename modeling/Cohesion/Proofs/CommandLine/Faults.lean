/-
Which call documents make a run fail.

The analysis of a call document either succeeds, or ends with a message that tells what is wrong
with the document, or fails because something is beyond a limit that nobody looks at: bytes that are
no text, an integer with too many digits, containers that are nested more deeply than the platform
has room for, or a sum of counts that is too large for a word or, below zero, too long for a
message.

Main definitions:
* `Transcript.EndsWith` — a run ends with a message and the code one;
* `CallDocument.Refused` — why bytes are refused;
* `CallDocument.BeyondLimits` — bytes for which nothing is provided.

Main results:
* `CallDocument.not_beyondLimits` — documents that stay within the limits;
* `Program.analysis_document` — **how the analysis of a call document ends**.
-/
import Cohesion.CommandLine.Program
import Cohesion.Proofs.CallGraph.Refusal
import Cohesion.Proofs.Json.Limits
import Cohesion.Proofs.Text.Utf8

set_option autoImplicit false

namespace Cohesion

open Text

/-! ### Transcripts -/

namespace Transcript

variable {α β : Type}

/-- A run ends with the code one, and the last thing printed is a line beside the output. -/
structure EndsWith (terminal : Bool) (text : String) (t : Transcript α) : Prop where
  /-- The code is one. -/
  result : t.result = .error (.exit 1)
  /-- The line is the last thing printed. -/
  printed : t.printed.getLast? = some (.message (shown terminal (text ++ "\n")))

theorem endsWith_fail (terminal : Bool) (text : String) :
    EndsWith terminal text (fail terminal text : Transcript α) := ⟨rfl, rfl⟩

theorem result_bind_of_ok {t : Transcript α} {a : α} (h : t.result = .ok a)
    (f : α → Transcript β) : (t >>= f).result = (f a).result := by
  change (t.andThen f).result = _
  rw [andThen, h]

theorem result_bind_of_error {t : Transcript α} {e : Ending} (h : t.result = .error e)
    (f : α → Transcript β) : (t >>= f).result = .error e := by
  change (t.andThen f).result = _
  rw [andThen, h]

/-- A run that ends is not continued. -/
theorem EndsWith.bind {terminal : Bool} {text : String} {t : Transcript α}
    (h : EndsWith terminal text t) (f : α → Transcript β) : EndsWith terminal text (t >>= f) := by
  change EndsWith terminal text (t.andThen f)
  rw [andThen, h.result]
  exact ⟨rfl, h.printed⟩

/-- What is printed before does not matter. -/
theorem EndsWith.after {terminal : Bool} {text : String} {t : Transcript α} {a : α}
    {f : α → Transcript β} (h : t.result = .ok a) (hf : EndsWith terminal text (f a)) :
    EndsWith terminal text (t >>= f) := by
  change EndsWith terminal text (t.andThen f)
  rw [andThen, h]
  refine ⟨hf.result, ?_⟩
  rw [List.getLast?_append, hf.printed, Option.some_or]

end Transcript

/-! ### Documents beyond the limits -/

namespace CallDocument

variable {limit : Nat} {source : String} {bytes : List UInt8}

/-- Bytes are refused because they are no call document, or because its call graph makes no coupling
matrix, and `message` tells why. -/
def Refused (limit : Nat) (source : String) (bytes : List UInt8) (message : String) : Prop :=
  (∃ e, load source bytes limit = .error e ∧ e.isMalformed = true ∧ message = e.message) ∨
    ∃ d e, load source bytes limit = .ok d ∧ CouplingMatrix.ofGraph d.graph = .error e ∧
      e.isMalformed = true ∧ message = e.message

/-- Bytes that are not provided for: those of no text; a text that a reader with room for `limit`
nested containers gives up because of an integer or of containers; and a document whose first call
that cannot be entered into the matrix has a count that is out of range. -/
inductive BeyondLimits (limit : Nat) (bytes : List UInt8) : Prop where
  /-- The bytes are those of no text. -/
  | encoding (h : ∀ s, bytes ≠ Utf8.encode s)
  /-- An integer has too many digits. -/
  | integer {s : String} {digits : Nat} (hs : bytes = Utf8.encode s)
      (h : Json.parse (normalizeNewlines s.toList) limit = .error (.hugeInteger digits))
  /-- Containers are nested too deeply. -/
  | depth {s : String} {container : Json.Container} (hs : bytes = Utf8.encode s)
      (h : Json.parse (normalizeNewlines s.toList) limit = .error (.tooDeep container))
  /-- The count of a pair is out of range. -/
  | count {s : String} {value : Json} {d : CallDocument} {front back : List Call} {c : Call}
      (hs : bytes = Utf8.encode s)
      (hvalue : Json.parse (normalizeNewlines s.toList) limit = .ok value)
      (hd : ofJson value = .ok d) (hcalls : d.graph.calls = front ++ c :: back)
      (hfront : ∀ b ∈ front, b.Acceptable d.graph.units) (hc : c.OutOfRange d.graph.units)

theorem load_of_parse_eq_error {s : String} {e : Json.ReadError}
    (h : Json.parse (normalizeNewlines s.toList) limit = .error e) :
    load source (Utf8.encode s) limit = .error (.json source (normalizeNewlines s.toList) e) := by
  simp only [load, Utf8.decode_encode, h]

theorem load_of_parse_eq_ok {s : String} {value : Json}
    (h : Json.parse (normalizeNewlines s.toList) limit = .ok value) :
    load source (Utf8.encode s) limit = (ofJson value).mapError (.document source value) := by
  simp only [load, Utf8.decode_encode, h]

/-- What is loaded was parsed, and is the document of the value. -/
theorem exists_of_load_eq_ok {s : String} {d : CallDocument}
    (h : load source (Utf8.encode s) limit = .ok d) :
    ∃ value, Json.parse (normalizeNewlines s.toList) limit = .ok value ∧ ofJson value = .ok d := by
  cases hparse : Json.parse (normalizeNewlines s.toList) limit with
  | error e =>
      rw [load_of_parse_eq_error hparse] at h
      cases h
  | ok value =>
      refine ⟨value, rfl, ?_⟩
      rw [load_of_parse_eq_ok hparse] at h
      cases hd : ofJson value with
      | error e =>
          rw [hd] at h
          cases h
      | ok d' =>
          rw [hd] at h
          cases h
          rfl

/-- A text that fails to load for another reason than what the document says is beyond a limit of
the reader. -/
theorem beyondLimits_of_load_eq_error {s : String} {e : LoadError}
    (h : load source (Utf8.encode s) limit = .error e) (hlimit : e.isMalformed = false) :
    BeyondLimits limit (Utf8.encode s) := by
  cases hparse : Json.parse (normalizeNewlines s.toList) limit with
  | error cause =>
      rw [load_of_parse_eq_error hparse] at h
      cases h
      cases cause with
      | malformed _ _ => cases hlimit
      | hugeInteger digits => exact .integer rfl hparse
      | tooDeep container => exact .depth rfl hparse
  | ok value =>
      rw [load_of_parse_eq_ok hparse] at h
      cases hd : ofJson value with
      | error cause =>
          rw [hd] at h
          cases h
          cases hlimit
      | ok d =>
          rw [hd] at h
          cases h

/-- The bytes that are not provided for are those for which loading or making the matrix fails, and
not because of what the document says. -/
theorem beyondLimits_iff (source : String) : BeyondLimits limit bytes ↔
    (∃ e, load source bytes limit = .error e ∧ e.isMalformed = false) ∨
      ∃ d e, load source bytes limit = .ok d ∧ CouplingMatrix.ofGraph d.graph = .error e ∧
        e.isMalformed = false := by
  constructor
  · intro h
    cases h with
    | encoding h =>
        obtain ⟨e, he⟩ := Utf8.exists_decode_error_iff.2 h
        refine Or.inl ⟨.encoding e, ?_, rfl⟩
        simp only [load, he]
    | integer hs h =>
        subst hs
        exact Or.inl ⟨_, load_of_parse_eq_error h, rfl⟩
    | depth hs h =>
        subst hs
        exact Or.inl ⟨_, load_of_parse_eq_error h, rfl⟩
    | count hs hvalue hd hcalls hfront hc =>
        subst hs
        obtain ⟨e, he, hlimit⟩ := CouplingMatrix.exists_outOfRange_iff.2
          ⟨pairwise_units hd, _, _, _, hcalls, hfront, hc⟩
        refine Or.inr ⟨_, e, ?_, he, hlimit⟩
        rw [load_of_parse_eq_ok hvalue, hd]
        rfl
  · intro h
    by_cases htext : ∃ s, bytes = Utf8.encode s
    · obtain ⟨s, rfl⟩ := htext
      rcases h with ⟨e, he, hlimit⟩ | ⟨d, e, hd, he, hlimit⟩
      · exact beyondLimits_of_load_eq_error he hlimit
      · obtain ⟨value, hvalue, hd⟩ := exists_of_load_eq_ok hd
        obtain ⟨-, front, c, back, hcalls, hfront, hc⟩ :=
          CouplingMatrix.exists_outOfRange_iff.1 ⟨e, he, hlimit⟩
        exact .count rfl hvalue hd hcalls hfront hc
    · exact .encoding fun s hs => htext ⟨s, hs⟩

/-- Documents that stay within the limits: a text without a run of digits that is too long and
without too many openings, and no pair of names whose counts are out of range. -/
theorem not_beyondLimits {s : String}
    (hdigits : ∀ n, ¬Json.HasLongRun n (normalizeNewlines s.toList))
    (hopenings : Json.openings (normalizeNewlines s.toList) ≤ limit)
    (hcounts : ∀ value, Json.parse (normalizeNewlines s.toList) limit = .ok value →
      ∀ caller callee, ¬value.IsOutOfRange caller callee) :
    ¬BeyondLimits limit (Utf8.encode s) := by
  have hinj : ∀ {s' : String}, Utf8.encode s = Utf8.encode s' → s' = s := by
    intro s' h
    rw [Utf8.encode_eq_iff] at h
    exact h.symm
  intro h
  cases h with
  | encoding h => exact h s rfl
  | integer hs h =>
      cases hinj hs
      exact hdigits _ (Json.of_parse_eq_hugeInteger h)
  | depth hs h =>
      cases hinj hs
      have hdeep := Json.of_parse_eq_tooDeep h
      omega
  | count hs hvalue hd hcalls hfront hc =>
      cases hinj hs
      exact hcounts _ hvalue _ _ ((outOfRange_iff hd (by simp [hcalls])).1 hc)

end CallDocument

/-! ### The analysis -/

namespace Program

open Transcript

variable {p : Platform} {c : Console} {o : RunOptions} {bytes : List UInt8}

/-- What is said before the message of a failed analysis. -/
def failedText (message : String) : String := s!"❌ Analysis failed: {message}"

section

variable (hread : c.files.read? o.root = some bytes) (hsuffix : o.root.lowerSuffix = ".json")

include hread hsuffix

theorem callGraph_eq_documentGraph : callGraph p c o = documentGraph p c o bytes := by
  rw [callGraph, hread, hsuffix]
  rfl

/-- A document that is loaded leaves it to its graph how the analysis ends. -/
theorem result_callGraph {d : CallDocument}
    (h : CallDocument.load o.root.toString bytes p.depth = .ok d) :
    (callGraph p c o).result = .ok d.graph := by
  rw [callGraph_eq_documentGraph hread hsuffix, documentGraph]
  simp only [h]
  rfl

/-- Bytes that are refused end the analysis with a message. -/
theorem endsWith_of_refused {message : String}
    (h : CallDocument.Refused p.depth o.root.toString bytes message) :
    EndsWith c.terminal (failedText message) (analysis p c o) := by
  rcases h with ⟨e, he, hmalformed, rfl⟩ | ⟨d, e, hd, he, hmalformed, rfl⟩
  · have hgraph : EndsWith c.terminal (failedText e.message) (callGraph p c o) := by
      rw [callGraph_eq_documentGraph hread hsuffix, documentGraph]
      simp only [he, hmalformed, if_true]
      exact EndsWith.after rfl (endsWith_fail _ _)
    exact hgraph.bind _
  · refine EndsWith.after (result_callGraph hread hsuffix hd) ?_
    have hfail : Analysis.ofGraph d.graph = .error e := by rw [Analysis.ofGraph, he]; rfl
    simp only [hfail, hmalformed, if_true]
    exact endsWith_fail _ _

/-- Bytes beyond the limits make the run fail. -/
theorem exists_fault (h : CallDocument.BeyondLimits p.depth bytes) :
    ∃ f, (analysis p c o).result = .error (.fault f) := by
  rcases (CallDocument.beyondLimits_iff o.root.toString).1 h with
    ⟨e, he, hlimit⟩ | ⟨d, e, hd, he, hlimit⟩
  · refine ⟨.document e, ?_⟩
    refine result_bind_of_error ?_ _
    rw [callGraph_eq_documentGraph hread hsuffix, documentGraph]
    simp only [he, hlimit]
    rfl
  · have hfail : Analysis.ofGraph d.graph = .error e := by rw [Analysis.ofGraph, he]; rfl
    refine ⟨.matrix e, ?_⟩
    rw [analysis, result_bind_of_ok (result_callGraph hread hsuffix hd)]
    simp only [hfail, hlimit]
    rfl

/-- **How the analysis of a call document ends.**  Bytes within the limits lead to an analysis, or
they are refused with a message that tells why.  Bytes beyond the limits make the run fail. -/
theorem analysis_document :
    (¬CallDocument.BeyondLimits p.depth bytes →
      (∃ a, (analysis p c o).result = .ok a) ∨
        ∃ message, CallDocument.Refused p.depth o.root.toString bytes message ∧
          EndsWith c.terminal (failedText message) (analysis p c o)) ∧
      (CallDocument.BeyondLimits p.depth bytes →
        ∃ f, (analysis p c o).result = .error (.fault f)) := by
  have hrefused : ∀ message, CallDocument.Refused p.depth o.root.toString bytes message →
      ∃ message, CallDocument.Refused p.depth o.root.toString bytes message ∧
        EndsWith c.terminal (failedText message) (analysis p c o) :=
    fun message h => ⟨message, h, endsWith_of_refused hread hsuffix h⟩
  refine ⟨fun hwithin => ?_, exists_fault hread hsuffix⟩
  rw [CallDocument.beyondLimits_iff o.root.toString] at hwithin
  cases hload : CallDocument.load o.root.toString bytes p.depth with
  | error e =>
      cases hmalformed : e.isMalformed with
      | true => exact Or.inr (hrefused _ (Or.inl ⟨e, hload, hmalformed, rfl⟩))
      | false => exact absurd (Or.inl ⟨e, hload, hmalformed⟩) hwithin
  | ok d =>
      cases hm : CouplingMatrix.ofGraph d.graph with
      | error e =>
          cases hmalformed : e.isMalformed with
          | true => exact Or.inr (hrefused _ (Or.inr ⟨d, e, hload, hm, hmalformed, rfl⟩))
          | false => exact absurd (Or.inr ⟨d, e, hload, hm, hmalformed⟩) hwithin
      | ok m =>
          have hok : Analysis.ofGraph d.graph = .ok (.ofMatrix m) := by
            rw [Analysis.ofGraph, hm]
            rfl
          refine Or.inl ⟨.ofMatrix m, ?_⟩
          rw [analysis, result_bind_of_ok (result_callGraph hread hsuffix hload)]
          simp only [hok]
          rfl

end

/-! ### Two small files -/

/-- The place of a call document. -/
def documentPath : Path := ⟨"/", ["graph.json"]⟩

/-- A console with a call document of these bytes. -/
def consoleWith (bytes : List UInt8) : Console where
  terminal := false
  timestamp := ""
  files := (FileTree.empty ⟨"/", []⟩).put documentPath (.file bytes)

/-- A run that analyzes the call document. -/
def documentOptions : RunOptions where
  request := { path := "/graph.json" }
  root := documentPath
  threshold := defaultThreshold
  verbose := false
  output := none
  exclude := []
  focus := []

theorem read?_consoleWith (bytes : List UInt8) :
    (consoleWith bytes).files.read? documentOptions.root = some bytes := by
  with_unfolding_all rfl

theorem lowerSuffix_documentOptions : documentOptions.root.lowerSuffix = ".json" := by
  decide +kernel

/-- An object without members is within the limits. -/
theorem not_beyondLimits_braces :
    ¬CallDocument.BeyondLimits Json.depthLimit (Utf8.encode "\x7b\x7d") := by
  have hparse : Json.parse (normalizeNewlines "\x7b\x7d".toList) = .ok (.obj []) := by
    with_unfolding_all rfl
  refine CallDocument.not_beyondLimits ?_ (by decide +kernel) ?_
  · rintro n ⟨hlong, digits, hinfix, rfl, -⟩
    have hlength := hinfix.length_le
    have htwo : (normalizeNewlines "\x7b\x7d".toList).length = 2 := by decide +kernel
    rw [Json.digitLimit] at hlong
    omega
  · intro value hvalue
    rw [hparse] at hvalue
    cases hvalue
    rintro caller callee ⟨-, hcaller, -⟩
    exact absurd hcaller List.not_mem_nil

theorem analysis_document_braces :
    (∃ a, (analysis {} (consoleWith (Utf8.encode "\x7b\x7d")) documentOptions).result = .ok a) ∨
      ∃ message,
        CallDocument.Refused Json.depthLimit "/graph.json" (Utf8.encode "\x7b\x7d") message ∧
          EndsWith false (failedText message)
            (analysis {} (consoleWith (Utf8.encode "\x7b\x7d")) documentOptions) :=
  (analysis_document (read?_consoleWith _) lowerSuffix_documentOptions).1 not_beyondLimits_braces

/-- A single byte that starts no character makes the run fail. -/
theorem exists_fault_stray_byte :
    ∃ f, (analysis {} (consoleWith [0xff]) documentOptions).result = .error (.fault f) :=
  exists_fault (read?_consoleWith _) lowerSuffix_documentOptions
    (.encoding (Utf8.exists_decode_error_iff.1 ⟨_, rfl⟩))

end Program

end Cohesion
