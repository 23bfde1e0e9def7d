/-
Reports as documents of the standard.

All numbers of a report but its threshold are shares, means of shares and averages, and they are
rounded.  So its document can be written and read: the numbers have the form of all results, the
names in each object are distinct, and nothing is nested deeply.  If the averages are floating-point
numbers at all, the one number that may not be finite is the threshold.

Main definitions:
* `Report.Proper` — the numbers of a report are those of an analysis;
* `Report.integers` — the integers of a section that may have too many digits.

Main results:
* `Report.proper_ofAnalysis` — the reports of an analysis are so;
* `Report.member?_document` — what is found in a document under the name of a section;
* `Report.sound_document` — **the document of a report can be written and read**;
* `Report.isFinite_document` — **all numbers of the document are finite exactly if the threshold
  is**;
* `Report.integersFit_document` — which integers must have few enough digits.
-/
import Cohesion.Proofs.Clustering.Accesses
import Cohesion.Proofs.Clustering.Shares
import Cohesion.Proofs.Json.Grammar
import Cohesion.Proofs.Json.Members
import Cohesion.Report.Document

set_option autoImplicit false

namespace Cohesion

open Json (Sound)

/-! ### Values of documents -/

namespace Json

theorem areFinite_iff {items : List Json} :
    areFinite items = true ↔ ∀ v ∈ items, v.isFinite = true := by
  induction items with
  | nil => simp [areFinite]
  | cons v items ih => rw [areFinite, Bool.and_eq_true, ih, List.forall_mem_cons]

theorem haveFinite_iff {members : List (String × Json)} :
    haveFinite members = true ↔ ∀ m ∈ members, m.2.isFinite = true := by
  induction members with
  | nil => simp [haveFinite]
  | cons m members ih => rw [haveFinite, Bool.and_eq_true, ih, List.forall_mem_cons]

theorem itemsFit_iff {items : List Json} :
    itemsFit items = true ↔ ∀ v ∈ items, v.integersFit = true := by
  induction items with
  | nil => simp [itemsFit]
  | cons v items ih => rw [itemsFit, Bool.and_eq_true, ih, List.forall_mem_cons]

theorem membersFit_iff {members : List (String × Json)} :
    membersFit members = true ↔ ∀ m ∈ members, m.2.integersFit = true := by
  induction members with
  | nil => simp [membersFit]
  | cons m members ih => rw [membersFit, Bool.and_eq_true, ih, List.forall_mem_cons]

theorem integersFit_optional (s : Option String) : (optional s).integersFit = true := by
  cases s <;> rfl

/-- A value without floating-point numbers that are not finite, which can be written and read. -/
structure Fine (limit depth : Nat) (v : Json) : Prop where
  /-- It can be written and read. -/
  sound : Sound limit depth v
  /-- Its numbers are finite. -/
  finite : v.isFinite = true

variable {limit depth : Nat}

theorem fine_int (n : Int) : Fine limit depth (.int n) := ⟨.int _ _, rfl⟩

theorem fine_bool (b : Bool) : Fine limit depth (.bool b) := ⟨.bool _ _, rfl⟩

theorem fine_str (s : String) : Fine limit depth (.str s) := ⟨.str _ _, rfl⟩

theorem fine_real {x : Binary64} (hx : x.Canonical) (hfinite : x.isFinite = true) :
    Fine limit depth (.real x) := ⟨.real _ hx, hfinite⟩

theorem fine_rounded {x : Binary64} (hx : x.Proper) : Fine limit depth (rounded x) :=
  fine_real (hx.roundTo 6).canonical (hx.roundTo 6).moderate.isFinite

theorem fine_optional (s : Option String) : Fine limit depth (optional s) := by
  cases s with
  | none => exact ⟨.null _, rfl⟩
  | some s => exact fine_str s

theorem fine_arr {items : List Json} (hdepth : depth < limit)
    (h : ∀ v ∈ items, Fine limit (depth + 1) v) : Fine limit depth (.arr items) :=
  ⟨.arr hdepth fun v hv => (h v hv).sound, areFinite_iff.2 fun v hv => (h v hv).finite⟩

theorem fine_obj {members : List (String × Json)} (hdepth : depth < limit)
    (hnames : (members.map Prod.fst).Nodup) (h : ∀ m ∈ members, Fine limit (depth + 1) m.2) :
    Fine limit depth (.obj members) :=
  ⟨.obj hdepth hnames fun m hm => (h m hm).sound, haveFinite_iff.2 fun m hm => (h m hm).finite⟩

/-- A list of values made from a list of things. -/
theorem fine_map {α : Type} {f : α → Json} {list : List α} (hdepth : depth < limit)
    (h : ∀ a ∈ list, Fine limit (depth + 1) (f a)) : Fine limit depth (.arr (list.map f)) :=
  fine_arr hdepth (List.forall_mem_map.2 h)

theorem fine_texts {α : Type} (f : α → String) (list : List α) (hdepth : depth < limit) :
    Fine limit depth (.arr (list.map fun a => .str (f a))) :=
  fine_map hdepth fun a _ => fine_str (f a)

end Json

open Json

/-! ### Statistics -/

theorem canonical_average (sum : Int) (count : Nat) : (average sum count).Canonical := by
  rw [average]
  split
  · exact Binary64.canonical_zero false
  · exact Binary64.canonical_ratio _ _

/-- The statistics can be written and read, and their numbers are finite if the averages are. -/
theorem Statistics.fine_toJson {limit : Nat} (hlimit : 5 ≤ limit) {units : List CodeUnit}
    (h : (ofUnits units).averagesFit = true) : Fine limit 1 (ofUnits units).toJson := by
  simp only [averagesFit, List.all_cons, List.all_nil, Bool.and_true, Bool.and_eq_true] at h
  obtain ⟨hmethods, hlines, hfields⟩ := h
  refine fine_obj (by omega) ?_ ?_
  · simp [entries]
  · simp only [entries, List.map_cons, List.map_nil, List.forall_mem_cons, Value.toJson]
    exact ⟨fine_int _, fine_int _, fine_int _, fine_int _,
      fine_real (canonical_average _ _) hmethods, fine_real (canonical_average _ _) hlines,
      fine_real (canonical_average _ _) hfields, fine_int _, fine_texts _ _ (by omega),
      fine_texts _ _ (by omega), fine_texts _ _ (by omega), nofun⟩

/-! ### Reports -/

namespace Report

/-- The numbers of a report are those of an analysis. -/
structure Proper (r : Report) : Prop where
  /-- The threshold has the form of all results. -/
  threshold : r.threshold.Canonical
  /-- The couplings of the pairs are proper. -/
  rows : ∀ row ∈ r.rows, row.coupling.Proper
  /-- So are those of the modules. -/
  modules : ∀ M ∈ r.cut.modules, M.cohesion.Proper ∧ M.cluster.mergeCoupling.Proper

/-- The reports of an analysis are so. -/
theorem proper_ofAnalysis {a : Analysis} {m : CouplingMatrix} (h : a.IsOf m) (path : Path)
    {threshold : Binary64} (hthreshold : threshold.Canonical) (calls : MethodCalls) :
    (ofAnalysis a path threshold calls).Proper where
  threshold := hthreshold
  rows row hrow := by
    obtain ⟨p, hp, rfl⟩ := List.mem_map.1 hrow
    exact CouplingMatrix.proper_of_mem_pairs hp
  modules M hM := by
    have hcut : (ofAnalysis a path threshold calls).cut = (Dendrogram.ofMatrix m).cut m threshold :=
      h.identify_eq threshold
    rw [hcut] at hM
    exact Dendrogram.proper_of_mem_cut hM

section

-- the texts of a module's units are what is nested most deeply
variable {limit : Nat} (hlimit : 5 ≤ limit)

include hlimit

theorem fine_rowJson {row : CouplingRow} (h : row.coupling.Proper) : Fine limit 2 (rowJson row) := by
  refine fine_obj (by omega) (by simp) ?_
  simp only [List.forall_mem_cons]
  exact ⟨fine_str _, fine_str _, fine_int _, fine_rounded h, nofun⟩

theorem fine_moduleJson {M : Module}
    (h : M.cohesion.Proper ∧ M.cluster.mergeCoupling.Proper) : Fine limit 3 (moduleJson M) := by
  refine fine_obj (by omega) (by simp) ?_
  simp only [List.forall_mem_cons]
  exact ⟨fine_int _, fine_texts _ _ (by omega), fine_rounded h.1, fine_rounded h.2, nofun⟩

theorem fine_unitJson (u : CodeUnit) : Fine limit 2 (unitJson u) := by
  refine fine_obj (by omega) (by simp) ?_
  simp only [List.forall_mem_cons]
  refine ⟨fine_str _, fine_optional _, fine_optional _, fine_map (by omega) fun f _ => ?_,
    fine_map (by omega) fun m _ => ?_, nofun⟩
  · refine fine_obj (by omega) (by simp) ?_
    simp only [List.forall_mem_cons]
    exact ⟨fine_str _, fine_str _, nofun⟩
  · refine fine_obj (by omega) (by simp) ?_
    simp only [List.forall_mem_cons]
    exact ⟨fine_str _, fine_int _, fine_int _, nofun⟩

theorem fine_sectionMember {r : Report} (h : r.Proper) {s : Section}
    (havg : s.averagesFit r.units = true) : Fine limit 1 (r.sectionMember s).2 := by
  cases s with
  | coupling => exact fine_map (by omega) fun row hrow => fine_rowJson hlimit (h.rows row hrow)
  | modules =>
      refine fine_obj (by omega) (by simp) ?_
      simp only [List.forall_mem_cons]
      exact ⟨fine_bool _, fine_optional _,
        fine_map (by omega) fun M hM => fine_moduleJson hlimit (h.modules M hM), nofun⟩
  | stats => exact Statistics.fine_toJson hlimit havg
  | tree => exact fine_map (by omega) fun u _ => fine_unitJson hlimit u
  | calls =>
      refine fine_obj (by omega) ?_ ?_
      · rw [List.map_map]
        exact r.methodCalls.nodup
      · exact List.forall_mem_map.2 fun entry _ => fine_texts _ _ (by omega)

end

/-! ### The document -/

variable {r : Report}

/-- Different sections have different members. -/
theorem eq_of_sectionMember_eq {s t : Section} (h : (r.sectionMember s).1 = (r.sectionMember t).1) :
    s = t := by
  cases s <;> cases t <;> first | rfl | exact absurd h (by simp [sectionMember])

theorem sectionMember_ne_meta (s : Section) : (r.sectionMember s).1 ≠ "meta" := by
  cases s <;> simp [sectionMember]

/-- What is found in a document under the name of a section: its member, if it is shown. -/
theorem member?_document (r : Report) (sections : List Section) (timestamp : String) (s : Section) :
    (r.document sections timestamp).member? (r.sectionMember s).1 =
      if s ∈ sections then some (r.sectionMember s).2 else none := by
  have hmeta : [("meta", r.metaJson timestamp)].lookup (r.sectionMember s).1 = none := by
    simp [List.lookup_cons, beq_eq_false_iff_ne.2 (sectionMember_ne_meta s)]
  have hlookup := lookup_setAll_map r.sectionMember (fun h => eq_of_sectionMember_eq h) s sections
    [("meta", r.metaJson timestamp)]
  rw [hmeta] at hlookup
  exact hlookup

/-- Every document says what it is about. -/
theorem member?_document_meta (r : Report) (sections : List Section) (timestamp : String) :
    (r.document sections timestamp).member? "meta" = some (r.metaJson timestamp) :=
  lookup_setAll_of_ne (List.forall_mem_map.2 fun s _ => sectionMember_ne_meta s)
    [("meta", r.metaJson timestamp)]

/-- What holds of all members of a document holds of what it is about and of each section. -/
theorem forall_members_iff (r : Report) (sections : List Section) (timestamp : String)
    (P : Json → Prop) :
    (∀ m ∈ ofMembers (("meta", r.metaJson timestamp) :: sections.map r.sectionMember), P m.2) ↔
      P (r.metaJson timestamp) ∧ ∀ s ∈ sections, P (r.sectionMember s).2 := by
  have hfound : ∀ {name : String} {v : Json},
      (r.document sections timestamp).member? name = some v →
        (name, v) ∈ ofMembers (("meta", r.metaJson timestamp) :: sections.map r.sectionMember) := by
    intro name v h
    obtain ⟨before, after, hmembers, -⟩ := List.lookup_eq_some_iff.1 h
    rw [hmembers]
    simp
  constructor
  · intro hall
    refine ⟨hall _ (hfound (r.member?_document_meta sections timestamp)), fun s hs => ?_⟩
    exact hall _ (hfound ((r.member?_document sections timestamp s).trans (if_pos hs)))
  · rintro ⟨hmeta, hsections⟩ m hm
    rcases List.mem_cons.1 (mem_of_mem_ofMembers hm) with rfl | hm
    · exact hmeta
    · obtain ⟨s, hs, rfl⟩ := List.mem_map.1 hm
      exact hsections s hs

variable {sections : List Section} {timestamp : String}

/-- **The document of a report can be written and read** by a reader with room for five levels, if
its averages are floating-point numbers. -/
theorem sound_document {limit : Nat} (hlimit : 5 ≤ limit) (h : r.Proper)
    (havg : ∀ s ∈ sections, s.averagesFit r.units = true) :
    Sound limit 0 (r.document sections timestamp) := by
  refine .obj (by omega) (nodup_ofMembers _) ?_
  refine (r.forall_members_iff sections timestamp (Sound limit 1)).2
    ⟨?_, fun s hs => (fine_sectionMember hlimit h (havg s hs)).sound⟩
  refine .obj (by omega) (by simp) ?_
  simp only [List.forall_mem_cons]
  exact ⟨.str _ _, .real _ h.threshold, .int _ _, .int _ _, .str _ _, nofun⟩

/-- **All numbers of the document are finite exactly if the threshold is.** -/
theorem isFinite_document (h : r.Proper) (havg : ∀ s ∈ sections, s.averagesFit r.units = true) :
    (r.document sections timestamp).isFinite = true ↔ r.threshold.isFinite = true := by
  have hmeta : (r.metaJson timestamp).isFinite = r.threshold.isFinite := by
    simp [metaJson, Json.isFinite, haveFinite]
  rw [document, Json.isFinite, haveFinite_iff,
    r.forall_members_iff sections timestamp (fun v => v.isFinite = true), hmeta]
  exact and_iff_left fun s hs => (fine_sectionMember le_rfl h (havg s hs)).finite

/-! ### Integers -/

/-- The integers of a section that may have too many digits. -/
def integers (r : Report) : Section → List Int
  | .modules => r.cut.modules.map fun M => (M.number : Int)
  | .stats =>
    let s := Statistics.ofUnits r.units
    [s.classCount, s.totalLines, s.methodCount, s.packageCount, s.maxParams]
  | .tree => r.units.flatMap fun u => u.methods.flatMap fun m => [m.paramCount, m.lineCount]
  | .coupling | .calls => []

/-- Integers of about the size of words have few enough digits. -/
theorem isWritable_of_le {n : Int} (h : n.natAbs ≤ 2 ^ 64) : isWritable n = true := by
  have hlimit : 20 ≤ writtenDigitLimit := by decide
  rw [isWritable, decide_eq_true_eq, Nat.pow_eq]
  generalize writtenDigitLimit = limit at *
  calc n.natAbs ≤ 2 ^ 64 := h
    _ < 10 ^ 20 := by norm_num
    _ ≤ 10 ^ limit := Nat.pow_le_pow_right (by norm_num) hlimit

/-- A section can be written if its integers can. -/
theorem integersFit_sectionMember (hrows : ∀ row ∈ r.rows, row.calls.natAbs ≤ 2 ^ 64) (s : Section) :
    (r.sectionMember s).2.integersFit = true ↔ ∀ n ∈ r.integers s, isWritable n = true := by
  cases s with
  | coupling =>
      simp only [sectionMember, integers, rowJson, rounded, Json.integersFit, itemsFit_iff,
        membersFit_iff, List.forall_mem_map, List.forall_mem_cons]
      simpa using fun row hrow => isWritable_of_le (hrows row hrow)
  | modules =>
      simp [sectionMember, integers, moduleJson, rounded, Json.integersFit, itemsFit_iff,
        membersFit, integersFit_optional]
  | stats =>
      simp [sectionMember, integers, Statistics.toJson, Statistics.entries,
        Statistics.Value.toJson, Json.integersFit, itemsFit_iff, membersFit]
  | tree =>
      have hunit : ∀ u : CodeUnit, (unitJson u).integersFit = true ↔
          ∀ m ∈ u.methods, isWritable m.paramCount = true ∧
            isWritable m.lineCount = true := by
        simp [unitJson, Json.integersFit, itemsFit_iff, membersFit, integersFit_optional]
      simp only [sectionMember, Json.integersFit, itemsFit_iff, List.forall_mem_map, hunit,
        integers, List.forall_mem_flatMap, List.forall_mem_cons]
      simp
  | calls =>
      simp only [sectionMember, integers, Json.integersFit, membersFit_iff, List.forall_mem_map,
        itemsFit_iff]
      simp

/-- **When the integers of a document can be written**: its number of units can, and so can those
of each section. -/
theorem integersFit_document (htotal : r.totalCalls.natAbs ≤ 2 ^ 64)
    (hrows : ∀ row ∈ r.rows, row.calls.natAbs ≤ 2 ^ 64) :
    (r.document sections timestamp).integersFit = true ↔
      isWritable r.units.length = true ∧
        ∀ s ∈ sections, ∀ n ∈ r.integers s, isWritable n = true := by
  have hmeta : (r.metaJson timestamp).integersFit = isWritable r.units.length := by
    simp [metaJson, Json.integersFit, membersFit, isWritable_of_le htotal]
  rw [document, Json.integersFit, membersFit_iff,
    r.forall_members_iff sections timestamp (fun v => v.integersFit = true), hmeta]
  simp only [integersFit_sectionMember hrows]

end Report

end Cohesion
