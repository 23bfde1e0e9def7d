/-
What counts, the command line or the configuration file.

An option that is given on the command line should count whatever is configured, a configured value
only where nothing is given, and the default where neither says anything.  The output, the patterns
and the verbosity are settled so.  The threshold is not: whether it is given is told by comparing it
with the default, so that the default itself, given on the command line, loses against a configured
threshold.  No other number is taken for the default, because numbers that are read have one form.

Main definitions:
* `Arguments.threshold?`, `Arguments.output?`, `Arguments.verbose?`, `Arguments.patterns?` — what is
  given on the command line;
* `Settings.byPrecedence` — the given value, else the configured one, else the default;
* `RunOptions.Settled` — the options of a run are the settings of its request.

Main results:
* `Configuration.prefer_eq_given_iff` — when a given value is preferred;
* `Command.precedence_of_ofArguments` — how the settings of a request come about;
* `Program.settle_iff` — a run has the settings of its request;
* `Command.settings_byPrecedence` — **which options are settled by precedence**.
-/
import Cohesion.CommandLine.Program
import Cohesion.Json.Equality
import Cohesion.Proofs.CommandLine.Faults
import Cohesion.Proofs.Number.Canonical
import Cohesion.Proofs.Number.Tenth

set_option autoImplicit false

namespace Cohesion

/-! ### What is given -/

namespace Instruction

/-- The threshold in an instruction, as it is written. -/
def threshold? : Instruction → Option String
  | threshold text => some text
  | _ => none

/-- The path of the report in an instruction. -/
def output? : Instruction → Option String
  | output path => some path
  | _ => none

/-- The pattern of files to leave out in an instruction. -/
def exclude? : Instruction → Option String
  | exclude pattern => some pattern
  | _ => none

/-- The pattern of the only files to look at in an instruction. -/
def focus? : Instruction → Option String
  | focus pattern => some pattern
  | _ => none

end Instruction

namespace Arguments

/-- The threshold that is given, as it is written: the last one counts. -/
def thresholdText? (a : Arguments) : Option String :=
  (a.instructions.filterMap Instruction.threshold?).getLast?

/-- The threshold that is given. -/
def threshold? (a : Arguments) : Option Binary64 := a.thresholdText?.bind readReal?

/-- The path that is given: the last one counts. -/
def output? (a : Arguments) : Option String :=
  (a.instructions.filterMap Instruction.output?).getLast?

/-- The verbosity that is given. -/
def verbose? (a : Arguments) : Option Bool :=
  if .verbose ∈ a.instructions then some true else none

/-- The patterns that are given, where `kind?` tells the pattern in an instruction: all of them. -/
def patterns? (kind? : Instruction → Option String) (a : Arguments) : Option (List Toml) :=
  match a.instructions.filterMap kind? with
  | [] => none
  | patterns => some (patterns.map .str)

end Arguments

/-- A given threshold is a number in the form of all results. -/
theorem Arguments.canonical_of_threshold? {a : Arguments} {x : Binary64}
    (h : a.threshold? = some x) : x.Canonical := by
  obtain ⟨text, -, hread⟩ := Option.bind_eq_some_iff.1 h
  exact Binary64.canonical_readReal hread

/-! ### Precedence -/

/-- The value of an option: the given one, else the configured one, else the default. -/
def Settings.byPrecedence {ε α : Type} (given : Option α) (configured : Except ε (Option α))
    (default : α) : Except ε α :=
  match given with
  | some value => .ok value
  | none => configured.map (·.getD default)

/-- A list of patterns that is configured; what is no list does not count. -/
def Settings.configuredPatterns (key : String) (members : Toml.Table) : Option (List Toml) :=
  match members.lookup key with
  | some (.arr items) => some items
  | _ => none

namespace Configuration

variable {ε α : Type} {same : α → α → Bool} {given default : α}
  {configured : Except ε (Option α)}

/-- A given value is preferred if it differs from the default, or nothing else is configured. -/
theorem prefer_eq_given_iff : prefer same given default configured = .ok given ↔
    same given default = false ∨ configured.map (·.getD default) = .ok given := by
  unfold prefer
  cases same given default <;> simp

end Configuration

/-! ### Requests -/

namespace Request

variable (r : Request) (instructions : List Instruction)

theorem threshold_foldl : (instructions.foldl follow r).threshold = r.threshold := by
  induction instructions generalizing r with
  | nil => rfl
  | cons i rest ih => rw [List.foldl_cons, ih]; cases i <;> rfl

/-- The last path counts. -/
theorem output_foldl : (instructions.foldl follow r).output =
    ((instructions.filterMap Instruction.output?).getLast?).or r.output := by
  induction instructions generalizing r with
  | nil => rfl
  | cons i rest ih =>
      rw [List.foldl_cons, ih]
      cases i with
      | output path =>
          have hcons : (Instruction.output path :: rest).filterMap Instruction.output? =
              path :: rest.filterMap Instruction.output? := rfl
          rw [hcons, List.getLast?_cons]
          cases (rest.filterMap Instruction.output?).getLast? <;> rfl
      | _ => rfl

theorem verbose_foldl : (instructions.foldl follow r).verbose =
    (decide (.verbose ∈ instructions) || r.verbose) := by
  induction instructions generalizing r with
  | nil => rfl
  | cons i rest ih => rw [List.foldl_cons, ih]; cases i <;> simp [follow]

/-- All patterns count. -/
theorem exclude_foldl : (instructions.foldl follow r).exclude =
    r.exclude ++ instructions.filterMap Instruction.exclude? := by
  induction instructions generalizing r with
  | nil => exact (List.append_nil _).symm
  | cons i rest ih =>
      rw [List.foldl_cons, ih]
      cases i with
      | exclude pattern => exact List.append_assoc _ _ _
      | _ => rfl

theorem focus_foldl : (instructions.foldl follow r).focus =
    r.focus ++ instructions.filterMap Instruction.focus? := by
  induction instructions generalizing r with
  | nil => exact (List.append_nil _).symm
  | cons i rest ih =>
      rw [List.foldl_cons, ih]
      cases i with
      | focus pattern => exact List.append_assoc _ _ _
      | _ => rfl

end Request

namespace Command

variable {found : String → Bool} {a : Arguments} {r : Request}

/-- The threshold of a command line is the one that is given, if there is one. -/
theorem threshold_eq_ok {x : Binary64} (h : threshold a.instructions = .ok x) :
    a.threshold? = a.thresholdText?.map (fun _ => x) ∧
      x = a.threshold?.getD defaultThreshold := by
  have hlast : a.instructions.reverse.findSome? Instruction.threshold? = a.thresholdText? := by
    rw [Arguments.thresholdText?, List.getLast?_eq_head?_reverse, ← List.filterMap_reverse,
      List.head?_filterMap]
  rw [threshold] at h
  rw [Arguments.threshold?]
  split at h
  · rename_i hwritten
    have htext : a.thresholdText? = none := hlast.symm.trans hwritten
    rw [htext]
    exact ⟨rfl, (Except.ok.inj h).symm⟩
  · rename_i text hwritten
    have htext : a.thresholdText? = some text := hlast.symm.trans hwritten
    rw [htext]
    split at h
    · rename_i y hnumber
      cases h
      exact ⟨hnumber, by rw [Option.bind_some, hnumber, Option.getD_some]⟩
    · cases h

/-- An analysis is asked for with all that is given, and with the defaults for what is not. -/
theorem eq_of_ofArguments (h : ofArguments found a = .ok (.analyze r)) :
    ∃ path x, threshold a.instructions = .ok x ∧
      r = a.instructions.foldl Request.follow { path, threshold := x } := by
  rw [ofArguments] at h
  split at h
  · rename_i command hcommand
    obtain ⟨i, -, hi⟩ := List.exists_of_findSome?_eq_some hcommand
    cases h
    cases i <;> cases hi
  · cases hx : threshold a.instructions with
    | error e =>
        rw [hx] at h
        cases h
    | ok x =>
        rw [hx] at h
        cases hpaths : a.paths with
        | nil =>
            rw [hpaths] at h
            cases h
        | cons path extra =>
            rw [hpaths] at h
            change (if !found path then _ else if !extra.isEmpty then _ else _) = _ at h
            split at h
            · cases h
            · split at h
              · cases h
              · cases h
                exact ⟨path, x, rfl, rfl⟩

end Command

/-! ### Settings -/

namespace Settings

/-- A number in the form of all results equals the default only if it is the default. -/
theorem eq_defaultThreshold_iff {x : Binary64} (hx : x.Canonical) :
    x.eq defaultThreshold = true ↔ x = defaultThreshold := by
  constructor
  · intro h
    obtain ⟨u, v, hu, hv⟩ := Binary64.exists_value?_of_le (a := x) (b := defaultThreshold)
      (by rw [Binary64.le, h, Bool.or_true])
    have heq : u = v := (Binary64.lt_eq_of_value? hu hv).2.1 h
    have hv' : v = _ := Option.some.inj (hv.symm.trans Binary64.isValue_tenth)
    refine hx.eq_of_isValue (Binary64.canonical_ofDecimal _ _ _) ?_ Binary64.isValue_tenth
      (by norm_num)
    rw [Binary64.IsValue, hu, heq, hv']
  · rintro rfl
    decide +kernel

/-- A given threshold other than the default counts. -/
theorem threshold_of_ne {given : Binary64} (hgiven : given.Canonical)
    (hne : given ≠ defaultThreshold) (configured : Toml) :
    threshold given configured = .ok given := by
  refine Configuration.prefer_eq_given_iff.2 (Or.inl ?_)
  exact Bool.eq_false_iff.2 fun h => hne ((eq_defaultThreshold_iff hgiven).1 h)

/-- The default counts as nothing. -/
theorem threshold_default (configured : Toml) : threshold defaultThreshold configured =
    (configuredThreshold configured).map (·.getD defaultThreshold) := by
  rw [threshold, Configuration.prefer, if_pos (by decide +kernel)]

/-- How the settings of a request come about, where `a` is what the command line gives and `members`
is the configured table. -/
structure Precedence (a : Arguments) (r : Request) (members : Toml.Table) : Prop where
  /-- The output is settled by precedence. -/
  output : Settings.output r.output (.table members) =
    byPrecedence (a.output?.map fun path => some (.str path))
      (.ok ((members.lookup "output").map some)) none
  /-- The patterns of files to leave out are settled by precedence. -/
  exclude : patterns "exclude" r.exclude (.table members) =
    byPrecedence (a.patterns? Instruction.exclude?) (.ok (configuredPatterns "exclude" members)) []
  /-- The patterns of the only files to look at are settled by precedence. -/
  focus : patterns "focus" r.focus (.table members) =
    byPrecedence (a.patterns? Instruction.focus?) (.ok (configuredPatterns "focus" members)) []
  /-- The verbosity is settled by precedence. -/
  verbose : Settings.verbose r.verbose (.table members) =
    byPrecedence a.verbose? (.ok ((members.lookup "verbose").map (·.isTruthy))) false
  /-- The threshold is settled by precedence, except where the default is given and something else
  is configured. -/
  threshold : Settings.threshold r.threshold (.table members) =
      byPrecedence a.threshold? (configuredThreshold (.table members)) defaultThreshold ↔
    (a.threshold? = some defaultThreshold →
      configuredThreshold (.table members) = .ok none ∨
        configuredThreshold (.table members) = .ok (some defaultThreshold))
  /-- The default is settled as if nothing was given. -/
  default : a.threshold? = some defaultThreshold →
    Settings.threshold r.threshold (.table members) =
      byPrecedence none (configuredThreshold (.table members)) defaultThreshold

/-- A threshold is settled by precedence, unless the default is given and something else is
configured. -/
theorem threshold_eq_byPrecedence_iff {given : Option Binary64} {configured : Toml}
    (hgiven : ∀ x ∈ given, x.Canonical) :
    threshold (given.getD defaultThreshold) configured =
        byPrecedence given (configuredThreshold configured) defaultThreshold ↔
      (given = some defaultThreshold → configuredThreshold configured = .ok none ∨
        configuredThreshold configured = .ok (some defaultThreshold)) := by
  cases given with
  | none => exact ⟨nofun, fun _ => threshold_default configured⟩
  | some x =>
      by_cases hx : x = defaultThreshold
      · subst hx
        rw [Option.getD_some, threshold_default, byPrecedence]
        cases configuredThreshold configured with
        | error e => exact ⟨nofun, fun h => by cases h rfl <;> rename_i h <;> cases h⟩
        | ok configured => cases configured <;> simp [Except.map]
      · refine ⟨fun _ h => absurd (Option.some.inj h) hx, fun _ => ?_⟩
        exact threshold_of_ne (hgiven x rfl) hx configured

theorem patterns_eq (key : String) (given : List String) (members : Toml.Table) :
    patterns key given (.table members) =
      byPrecedence (if given.isEmpty then none else some (given.map .str))
        (.ok (configuredPatterns key members)) [] := by
  cases given with
  | cons pattern rest => rfl
  | nil =>
      change Except.ok _ = Except.ok _
      rw [configuredPatterns]
      cases members.lookup key with
      | none => rfl
      | some value => cases value <;> rfl

theorem output_eq (given : Option String) (members : Toml.Table) :
    output given (.table members) =
      byPrecedence (given.map fun path => some (.str path))
        (.ok ((members.lookup "output").map some)) none := by
  cases given with
  | some path => rfl
  | none =>
      have hitem : output none (.table members) =
          if (members.lookup "output").isSome then
            .ok (some ((members.lookup "output").getD (.table []))) else .ok none := rfl
      rw [hitem]
      cases members.lookup "output" <;> rfl

end Settings

namespace Command

variable {found : String → Bool} {a : Arguments} {r : Request}

/-- A request has the settings that the command line and the configured table say. -/
theorem precedence_of_ofArguments (h : ofArguments found a = .ok (.analyze r))
    (members : Toml.Table) : Settings.Precedence a r members := by
  obtain ⟨path, x, hx, rfl⟩ := eq_of_ofArguments h
  obtain ⟨-, hgiven⟩ := threshold_eq_ok hx
  constructor
  · rw [Request.output_foldl, Settings.output_eq, Option.or_none, Arguments.output?]
  · rw [Request.exclude_foldl, Settings.patterns_eq, List.nil_append, Arguments.patterns?]
    cases a.instructions.filterMap Instruction.exclude? <;> rfl
  · rw [Request.focus_foldl, Settings.patterns_eq, List.nil_append, Arguments.patterns?]
    cases a.instructions.filterMap Instruction.focus? <;> rfl
  · rw [Request.verbose_foldl, Arguments.verbose?, Bool.or_false]
    by_cases hv : Instruction.verbose ∈ a.instructions <;> simp [hv] <;> rfl
  · rw [Request.threshold_foldl, hgiven]
    exact Settings.threshold_eq_byPrecedence_iff fun y hy => Arguments.canonical_of_threshold? hy
  · intro hdefault
    rw [Request.threshold_foldl, hgiven, hdefault]
    exact Settings.threshold_default _

end Command

/-! ### Runs -/

namespace Transcript

variable {α β : Type}

theorem result_bind_eq_ok_iff {t : Transcript α} {f : α → Transcript β} {b : β} :
    (t >>= f).result = .ok b ↔ ∃ a, t.result = .ok a ∧ (f a).result = .ok b := by
  cases h : t.result with
  | error e => simp [result_bind_of_error h]
  | ok a => simp [result_bind_of_ok h]

theorem result_ofExcept_eq_ok_iff {x : Except Fault α} {a : α} :
    (ofExcept x).result = .ok a ↔ x = .ok a := by
  cases x with
  | error f => exact ⟨nofun, nofun⟩
  | ok b => exact ⟨fun h => congrArg _ (Except.ok.inj h), fun h => congrArg _ (Except.ok.inj h)⟩

end Transcript

/-- The options of a run are the settings of a request, where `configured` is what the configuration
file says. -/
structure RunOptions.Settled (c : Console) (r : Request) (configured : Toml) (o : RunOptions) :
    Prop where
  /-- The request is kept. -/
  request : o.request = r
  /-- The path of the request is analyzed. -/
  root : o.root = c.files.resolve (.ofString r.path)
  /-- The threshold is the settled one. -/
  threshold : Settings.threshold r.threshold configured = .ok o.threshold
  /-- The verbosity is the settled one. -/
  verbose : Settings.verbose r.verbose configured = .ok o.verbose
  /-- The patterns of files to leave out are the settled ones. -/
  exclude : Settings.patterns "exclude" r.exclude configured = .ok o.exclude
  /-- The patterns of the only files to look at are the settled ones. -/
  focus : Settings.patterns "focus" r.focus configured = .ok o.focus
  /-- The report goes to the settled output. -/
  output : ∃ value, Settings.output r.output configured = .ok value ∧
    Settings.outputPath value = .ok (o.output.map (·.1))
  /-- The format of the report is that of its path. -/
  format : ∀ p ∈ o.output, Settings.format? p.1 = some p.2

namespace Program

open Transcript

variable {p : Platform} {c : Console} {r : Request}

theorem result_settleThreshold_eq_ok_iff {x : Except ThresholdError Binary64} {y : Binary64} :
    (settleThreshold c x).result = .ok y ↔ x = .ok y := by
  cases x with
  | ok z => exact ⟨fun h => congrArg _ (Except.ok.inj h), fun h => congrArg _ (Except.ok.inj h)⟩
  | error e => cases e <;> exact ⟨nofun, nofun⟩

theorem result_settleOutput_eq_ok_iff {value : Option Toml}
    {output : Option (String × ReportFormat)} :
    (settleOutput c value).result = .ok output ↔
      Settings.outputPath value = .ok (output.map (·.1)) ∧
        ∀ p ∈ output, Settings.format? p.1 = some p.2 := by
  rw [settleOutput, result_bind_eq_ok_iff]
  simp only [result_ofExcept_eq_ok_iff]
  constructor
  · rintro ⟨path?, hpath, h⟩
    cases path? with
    | none =>
        cases h
        exact ⟨hpath, nofun⟩
    | some path =>
        dsimp only at h
        cases hformat : Settings.format? path with
        | none =>
            rw [hformat] at h
            cases h
        | some format =>
            rw [hformat] at h
            cases h
            exact ⟨hpath, fun p hp => by cases hp; exact hformat⟩
  · rintro ⟨hpath, hformat⟩
    refine ⟨_, hpath, ?_⟩
    cases output with
    | none => rfl
    | some p =>
        dsimp only [Option.map_some]
        rw [hformat p rfl]
        rfl

/-- A run has the settings of its request, and goes on exactly if there are such. -/
theorem settle_iff {configuration : Configuration}
    (hload : Configuration.load c.files (c.files.resolve (.ofString r.path)) p.nesting =
      .ok configuration) (o : RunOptions) :
    (settle p c r).result = .ok o ↔ o.Settled c r configuration.value := by
  -- a warning does not change how the run goes on
  have hwarned : ∀ {goOn : Option String → Transcript RunOptions} {P : Prop},
      (∀ warning, (goOn (some warning)).result = (goOn none).result) →
        ((goOn none).result = .ok o ↔ P) → ∀ warning?, (goOn warning?).result = .ok o ↔ P := by
    intro goOn P hsome hnone warning?
    cases warning? with
    | none => exact hnone
    | some warning => rwa [hsome warning]
  rw [settle]
  simp only [hload, Except.mapError]
  rw [result_bind_of_ok rfl]
  generalize configuration.warning? = warning?
  revert warning?
  refine hwarned (fun _ => result_bind_of_ok rfl _) ?_
  simp only [result_bind_eq_ok_iff, result_settleThreshold_eq_ok_iff, result_ofExcept_eq_ok_iff,
    result_settleOutput_eq_ok_iff]
  constructor
  · rintro ⟨threshold, hthreshold, verbose, hverbose, value, hvalue, exclude, hexclude, focus,
      hfocus, output, ⟨hpath, hformat⟩, h⟩
    cases h
    exact ⟨rfl, rfl, hthreshold, hverbose, hexclude, hfocus, ⟨value, hvalue, hpath⟩, hformat⟩
  · intro h
    obtain ⟨value, hvalue, hpath⟩ := h.output
    refine ⟨_, h.threshold, _, h.verbose, _, hvalue, _, h.exclude, _, h.focus, _,
      ⟨hpath, h.format⟩, ?_⟩
    rw [← h.root, ← h.request]
    rfl

end Program

namespace Command

variable {found : String → Bool} {a : Arguments} {r : Request}

/-- **Which options are settled by precedence.**  For every command line that asks for an analysis
and every configured table, the output, the patterns and the verbosity are what is given, else what
is configured, else the default; the threshold is so except where the default is given and something
else is configured, and then what is configured counts.  A run has these settings, and goes on
exactly if there are such.  The reason is how two values are merged: the given one is the result
exactly if it differs from the default, or if it is configured or nothing is. -/
theorem settings_byPrecedence (h : ofArguments found a = .ok (.analyze r)) :
    (∀ members, Settings.Precedence a r members) ∧
      (∀ (p : Platform) (c : Console) (configuration : Configuration) (o : RunOptions),
        Configuration.load c.files (c.files.resolve (.ofString r.path)) p.nesting =
            .ok configuration →
          ((Program.settle p c r).result = .ok o ↔ o.Settled c r configuration.value)) ∧
      ∀ (members : List (String × Json)) (key : String) (given default : Json),
        Configuration.prefer Json.same given default
            (.ok (members.lookup key) : Except Fault (Option Json)) = .ok given ↔
          Json.same given default = false ∨ (members.lookup key).getD default = given := by
  refine ⟨precedence_of_ofArguments h, fun p c configuration o hload =>
    Program.settle_iff hload o, fun members key given default => ?_⟩
  rw [Configuration.prefer_eq_given_iff, Except.map, Except.ok.injEq]

/-- What is given as `-t 0.1 -o new.md -v graph.json`. -/
def tenthArguments : Arguments :=
  { instructions := [.threshold "0.1", .output "new.md", .verbose], paths := ["graph.json"] }

/-- The request of the same command line. -/
def tenthRequest : Request := { path := "graph.json", output := some "new.md", verbose := true }

/-- A table that configures all these options otherwise. -/
def otherTable : Toml.Table :=
  [("threshold", .real (.ofDecimal false 9 (-1))), ("output", .str "old.md"),
    ("verbose", .bool false)]

theorem ofArguments_tenth :
    ofArguments (fun _ => true) tenthArguments = .ok (.analyze tenthRequest) := by
  with_unfolding_all rfl

theorem settings_byPrecedence_tenth :
    Arguments.scan ["-t", "0.1", "-o", "new.md", "-v", "graph.json"] = .ok tenthArguments ∧
      ofArguments (fun _ => true) tenthArguments = .ok (.analyze tenthRequest) ∧
      Settings.output tenthRequest.output (.table otherTable) = .ok (some (.str "new.md")) ∧
      Settings.verbose tenthRequest.verbose (.table otherTable) = .ok true ∧
      Settings.threshold tenthRequest.threshold (.table otherTable) =
        .ok (.ofDecimal false 9 (-1)) := by
  obtain ⟨hprecedence, -, -⟩ := settings_byPrecedence ofArguments_tenth
  have h := hprecedence otherTable
  have hgiven : tenthArguments.threshold? = some defaultThreshold := by with_unfolding_all rfl
  exact ⟨by decide +kernel, ofArguments_tenth, h.output, h.verbose, h.default hgiven⟩

/-- A threshold that is given does not take effect: a tenth, where nine tenths are configured. -/
theorem exists_given_threshold_ignored :
    ∃ (a : Arguments) (r : Request) (members : Toml.Table) (x y : Binary64),
      ofArguments (fun _ => true) a = .ok (.analyze r) ∧ a.threshold? = some x ∧
        Settings.threshold r.threshold (.table members) = .ok y ∧ y ≠ x := by
  refine ⟨tenthArguments, tenthRequest, otherTable, defaultThreshold, .ofDecimal false 9 (-1),
    ofArguments_tenth, ?_, ?_, by decide +kernel⟩
  · with_unfolding_all rfl
  · exact Settings.threshold_default _

end Command

end Cohesion
