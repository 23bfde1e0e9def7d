/-
The order in which files are completed does not matter.

The units of several files are sorted before duplicates are dropped.  Units that the order of
sorting cannot tell apart have the same name and come from the same file, since different files
have different texts of their paths; and sorting keeps the order of such units.  So whatever the
order of the files is, the sorted list is the same, and with it everything that is made from it.

Main definitions:
* `SourceFile`, `SourceFile.Separate` — files with their units, each file with a path of its own;
* `Collection.KeepsFirst` — of each name the first unit of the least file is kept.

Main results:
* `Collection.ofSourceFiles_eq_of_perm` — the collection is the same for every order of the files;
* `Collection.keepsFirst_ofSourceFiles` — what is kept and what is dropped;
* `Index.completion_irrelevant` — **both together**, with the warnings and the call graph;
* `Index.exists_completed` — the files of an indexed directory are such files.
-/
import Cohesion.Indexing.Basic
import Cohesion.Proofs.CallGraph.History
import Cohesion.Proofs.Files.PathText
import Mathlib.Data.Prod.Lex
import Mathlib.Data.String.Basic

set_option autoImplicit false

namespace Cohesion

/-! ### Lists that are sorted by a key -/

section Sorted

variable {α β κ : Type}

/-- A list that is sorted by a key is determined by its elements of each key. -/
theorem eq_of_sorted_of_filter [LinearOrder κ] {key : α → κ} {xs ys : List α}
    (hxs : xs.Pairwise fun a b => key a ≤ key b) (hys : ys.Pairwise fun a b => key a ≤ key b)
    (h : ∀ k, xs.filter (key · = k) = ys.filter (key · = k)) : xs = ys := by
  induction xs generalizing ys with
  | nil =>
      cases ys with
      | nil => rfl
      | cons b ys => simpa using h (key b)
  | cons a xs ih =>
      cases ys with
      | nil => simpa using h (key a)
      | cons b ys =>
          rw [List.pairwise_cons] at hxs hys
          -- each of the two heads has the least key
          have hle : ∀ {c : α} {zs : List α}, (∀ d ∈ zs, key c ≤ key d) →
              ∀ d ∈ c :: zs, key c ≤ key d := by
            intro c zs hzs d hd
            rcases List.mem_cons.1 hd with rfl | hd
            · exact le_rfl
            · exact hzs d hd
          have ha : a ∈ (b :: ys).filter (key · = key a) := by
            rw [← h]
            simp
          have hb : b ∈ (a :: xs).filter (key · = key b) := by
            rw [h]
            simp
          have hkey : key a = key b :=
            le_antisymm (hle hxs.1 b (List.mem_filter.1 hb).1) (hle hys.1 a (List.mem_filter.1 ha).1)
          have hhead := h (key a)
          rw [List.filter_cons_of_pos (by simp), List.filter_cons_of_pos (by simp [hkey])] at hhead
          obtain ⟨rfl, -⟩ := List.cons.inj hhead
          have htail : ∀ k, xs.filter (key · = k) = ys.filter (key · = k) := by
            intro k
            have hk := h k
            by_cases hak : key a = k
            · simpa [hak] using hk
            · simpa [hak] using hk
          rw [ih hxs.2 hys.2 htail]

/-- Lists of which at most one is not empty can be put one after the other in any order. -/
theorem flatMap_eq_of_perm {g : α → List β} {xs ys : List α} (hperm : xs.Perm ys)
    (h : xs.Pairwise fun a b => g a = [] ∨ g b = []) : xs.flatMap g = ys.flatMap g := by
  induction hperm with
  | nil => rfl
  | cons a _ ih => rw [List.flatMap_cons, List.flatMap_cons, ih (List.pairwise_cons.1 h).2]
  | swap a b xs =>
      have hab := (List.pairwise_cons.1 h).1 a List.mem_cons_self
      rcases hab with hb | ha
      · simp [hb]
      · simp [ha]
  | trans hxy _ ih₁ ih₂ =>
      rw [ih₁ h, ih₂ ((hxy.pairwise_iff fun hab => hab.symm).1 h)]

/-- If one of these lists is not empty, nothing else is in them. -/
theorem flatMap_eq_of_mem {g : α → List β} {xs : List α} {a : α} (ha : a ∈ xs) (hne : g a ≠ [])
    (h : xs.Pairwise fun a b => g a = [] ∨ g b = []) : xs.flatMap g = g a := by
  obtain ⟨front, back, rfl⟩ := List.append_of_mem ha
  have hperm : (front ++ a :: back).Perm (a :: (front ++ back)) := List.perm_middle
  have hfirst := (List.pairwise_cons.1 ((hperm.pairwise_iff fun hab => hab.symm).1 h)).1
  have hrest : (front ++ back).flatMap g = [] :=
    List.flatMap_eq_nil_iff.2 fun b hb => (hfirst b hb).resolve_left hne
  rw [flatMap_eq_of_perm hperm h, List.flatMap_cons, hrest, List.append_nil]

end Sorted

/-! ### Sorted units -/

namespace CodeUnit

/-- What units are sorted by: the qualified name, then the text of the file. -/
def key (u : CodeUnit) : String ×ₗ String := toLex (u.qualified, u.fileText)

theorem key_eq_iff {a b : CodeUnit} :
    a.key = b.key ↔ a.qualified = b.qualified ∧ a.fileText = b.fileText := by
  simp [key]

theorem key_le_iff {a b : CodeUnit} : a.key ≤ b.key ↔
    a.qualified < b.qualified ∨ a.qualified = b.qualified ∧ a.fileText ≤ b.fileText := by
  rw [key, key, Prod.Lex.toLex_le_toLex]

theorem atMost_iff {a b : CodeUnit} : a.atMost b = true ↔ a.key ≤ b.key := by
  rw [atMost, Bool.or_eq_true, Bool.and_eq_true, decide_eq_true_iff, beq_iff_eq, Bool.not_eq_true',
    decide_eq_false_iff_not, not_lt, key_le_iff]

theorem atMost_trans (a b c : CodeUnit) (hab : a.atMost b = true) (hbc : b.atMost c = true) :
    a.atMost c = true :=
  atMost_iff.2 ((atMost_iff.1 hab).trans (atMost_iff.1 hbc))

theorem atMost_total (a b : CodeUnit) : (a.atMost b || b.atMost a) = true := by
  simpa [atMost_iff] using le_total a.key b.key

/-- Units in the order in which duplicates are looked for. -/
def sorted (units : List CodeUnit) : List CodeUnit := units.mergeSort atMost

theorem sorted_perm (units : List CodeUnit) : (sorted units).Perm units :=
  List.mergeSort_perm units atMost

theorem pairwise_sorted (units : List CodeUnit) :
    (sorted units).Pairwise fun a b => a.key ≤ b.key :=
  (List.pairwise_mergeSort atMost_trans atMost_total units).imp atMost_iff.1

/-- Sorting keeps the order of units that it cannot tell apart. -/
theorem filter_sorted (units : List CodeUnit) (k : String ×ₗ String) :
    (sorted units).filter (·.key = k) = units.filter (·.key = k) := by
  have hties : (units.filter (·.key = k)).Pairwise fun a b => a.atMost b = true := by
    refine List.pairwise_of_forall_mem_list fun a ha b hb => atMost_iff.2 (le_of_eq ?_)
    have hak : a.key = k := by simpa using (List.mem_filter.1 ha).2
    have hbk : b.key = k := by simpa using (List.mem_filter.1 hb).2
    exact hak.trans hbk.symm
  have hsub := (List.sublist_mergeSort atMost_trans atMost_total hties
    List.filter_sublist).filter (·.key = k)
  simp only [List.filter_filter, Bool.and_self] at hsub
  exact (hsub.eq_of_length ((sorted_perm units).filter (·.key = k)).length_eq.symm).symm

end CodeUnit

/-! ### Files with their units -/

/-- A source file and the units that are found in it. -/
structure SourceFile where
  /-- The path. -/
  path : Path
  /-- The units, in the order of the source. -/
  units : List CodeUnit

/-- Files with paths of their own, and units that know their files. -/
structure SourceFile.Separate (files : List SourceFile) : Prop where
  /-- The paths are as they are read. -/
  normal : ∀ f ∈ files, f.path.IsNormal
  /-- No two files have the same path. -/
  distinct : files.Pairwise fun f g => f.path ≠ g.path
  /-- Every unit is told to be in its file. -/
  carried : ∀ f ∈ files, ∀ u ∈ f.units, u.file = some f.path

namespace SourceFile

variable {files files' : List SourceFile}

/-- All units, file by file. -/
def allUnits (files : List SourceFile) : List CodeUnit := files.flatMap (·.units)

section

variable (h : Separate files)

include h

theorem Separate.fileText_eq {f : SourceFile} (hf : f ∈ files) {u : CodeUnit} (hu : u ∈ f.units) :
    u.fileText = f.path.toString := by
  rw [CodeUnit.fileText, h.carried f hf u hu]

/-- Units of one key come from one file. -/
theorem Separate.filter_eq_nil_or (k : String ×ₗ String) : files.Pairwise fun f g =>
    f.units.filter (·.key = k) = [] ∨ g.units.filter (·.key = k) = [] := by
  refine h.distinct.imp_of_mem fun {f g} hf hg hfg => ?_
  by_contra hboth
  rw [not_or, List.filter_eq_nil_iff, List.filter_eq_nil_iff] at hboth
  push Not at hboth
  obtain ⟨⟨u, hu, huk⟩, v, hv, hvk⟩ := hboth
  have hkey : u.key = v.key := by simp_all
  have htext := (CodeUnit.key_eq_iff.1 hkey).2
  rw [h.fileText_eq hf hu, h.fileText_eq hg hv] at htext
  exact hfg ((Path.toString_inj (h.normal f hf) (h.normal g hg)).1 htext)

/-- The units of one key are in the same order, in whatever order the files are. -/
theorem Separate.filter_allUnits (hperm : files.Perm files') (k : String ×ₗ String) :
    (allUnits files).filter (·.key = k) = (allUnits files').filter (·.key = k) := by
  rw [allUnits, allUnits, List.filter_flatMap, List.filter_flatMap]
  exact flatMap_eq_of_perm hperm (h.filter_eq_nil_or k)

/-- The units that sorting cannot tell from a given one are all in its file. -/
theorem Separate.filter_allUnits_eq {f : SourceFile} (hf : f ∈ files) {u : CodeUnit}
    (hu : u ∈ f.units) :
    (allUnits files).filter (·.key = u.key) = f.units.filter (·.key = u.key) := by
  rw [allUnits, List.filter_flatMap]
  refine flatMap_eq_of_mem hf (List.ne_nil_of_mem (a := u) ?_) (h.filter_eq_nil_or u.key)
  exact List.mem_filter.2 ⟨hu, by simp⟩

/-- The first of the sorted units of a key is the first of its name in its file. -/
theorem Separate.find?_eq {f : SourceFile} (hf : f ∈ files) {u : CodeUnit} (hu : u ∈ f.units) :
    (CodeUnit.sorted (allUnits files)).find? (·.key = u.key) =
      f.units.find? (·.qualified = u.qualified) := by
  have hkey : f.units.filter (·.key = u.key) = f.units.filter (·.qualified = u.qualified) := by
    refine List.filter_congr fun v hv => ?_
    simp [CodeUnit.key_eq_iff, h.fileText_eq hf hu, h.fileText_eq hf hv]
  rw [← List.head?_filter, ← List.head?_filter, CodeUnit.filter_sorted,
    h.filter_allUnits_eq hf hu, hkey]

/-- **The sorted units do not depend on the order of the files.** -/
theorem Separate.sorted_eq_of_perm (hperm : files.Perm files') :
    CodeUnit.sorted (allUnits files) = CodeUnit.sorted (allUnits files') := by
  refine eq_of_sorted_of_filter (CodeUnit.pairwise_sorted _) (CodeUnit.pairwise_sorted _) fun k => ?_
  rw [CodeUnit.filter_sorted, CodeUnit.filter_sorted, h.filter_allUnits hperm]

end

end SourceFile

/-! ### What is kept and what is dropped -/

namespace Collection

theorem same_of_find? {units : List CodeUnit} {u v : CodeUnit}
    (h : units.find? (·.same u) = some v) : v ∈ units ∧ v.same u = true :=
  ⟨List.mem_of_find?_eq_some h, by simpa using List.find?_some h⟩

/-- Every unit is kept or dropped. -/
theorem keepFirst_perm (kept units : List CodeUnit) :
    ((keepFirst kept units).units ++ (keepFirst kept units).duplicates.map (·.dropped)).Perm
      units := by
  induction units generalizing kept with
  | nil => rfl
  | cons u units ih =>
      rw [keepFirst]
      split
      · exact List.perm_middle.trans ((ih kept).cons u)
      · exact (ih (u :: kept)).cons u

theorem keepFirst_sublist (kept units : List CodeUnit) :
    (keepFirst kept units).units.Sublist units := by
  induction units generalizing kept with
  | nil => exact List.Sublist.refl _
  | cons u units ih =>
      rw [keepFirst]
      split
      · exact (ih kept).cons u
      · exact (ih (u :: kept)).cons_cons u

/-- A unit is kept when it is the first of its name, and the name was not taken before. -/
theorem first_of_mem_keepFirst {kept units : List CodeUnit} {k : CodeUnit}
    (hk : k ∈ (keepFirst kept units).units) :
    units.find? (·.same k) = some k ∧ ∀ v ∈ kept, v.same k = false := by
  induction units generalizing kept with
  | nil => cases hk
  | cons u units ih =>
      rw [keepFirst] at hk
      split at hk
      · rename_i first hfirst
        obtain ⟨hfind, hfresh⟩ := ih hk
        -- the name of this unit is taken, so it is not that of a unit that is kept later
        obtain ⟨hmem, hsame⟩ := same_of_find? hfirst
        have hu : u.same k = false := by
          rw [← hfresh first hmem, CodeUnit.same, CodeUnit.same, CodeUnit.same_iff.1 hsame]
        exact ⟨by rw [List.find?_cons_of_neg (by simp [hu]), hfind], hfresh⟩
      · rename_i hnone
        rcases List.mem_cons.1 hk with rfl | hk
        · have hself : k.same k = true := CodeUnit.same_iff.2 rfl
          refine ⟨List.find?_cons_of_pos hself, fun v hv => ?_⟩
          simpa using List.find?_eq_none.1 hnone v hv
        · obtain ⟨hfind, hfresh⟩ := ih hk
          rw [List.forall_mem_cons] at hfresh
          exact ⟨by rw [List.find?_cons_of_neg (by simp [hfresh.1]), hfind], hfresh.2⟩

/-- The name of every unit is that of one that is kept. -/
theorem exists_kept (kept : List CodeUnit) {units : List CodeUnit} {u : CodeUnit}
    (hu : u ∈ units) :
    ∃ k ∈ kept ++ (keepFirst kept units).units, k.same u = true := by
  induction units generalizing kept with
  | nil => cases hu
  | cons v units ih =>
      rw [keepFirst]
      split
      · rename_i first hfirst
        rcases List.mem_cons.1 hu with rfl | hu
        · obtain ⟨hmem, hsame⟩ := same_of_find? hfirst
          exact ⟨first, List.mem_append_left _ hmem, hsame⟩
        · exact ih kept hu
      · rcases List.mem_cons.1 hu with rfl | hu
        · exact ⟨u, by simp, CodeUnit.same_iff.2 rfl⟩
        · obtain ⟨k, hk, hsame⟩ := ih (v :: kept) hu
          exact ⟨k, List.perm_middle.mem_iff.2 hk, hsame⟩

/-- A unit is dropped because of one of its name that is kept. -/
theorem kept_of_mem_duplicates {kept units : List CodeUnit} {d : Duplicate}
    (hd : d ∈ (keepFirst kept units).duplicates) :
    d.kept ∈ kept ++ (keepFirst kept units).units ∧ d.kept.same d.dropped = true := by
  induction units generalizing kept with
  | nil => cases hd
  | cons u units ih =>
      rw [keepFirst] at hd ⊢
      split at hd
      · rename_i first hfirst
        rcases List.mem_cons.1 hd with rfl | hd
        · obtain ⟨hmem, hsame⟩ := same_of_find? hfirst
          exact ⟨List.mem_append_left _ hmem, hsame⟩
        · exact ih hd
      · obtain ⟨hk, hsame⟩ := ih hd
        exact ⟨List.perm_middle.mem_iff.2 hk, hsame⟩

/-- No two units that are kept have the same name. -/
theorem pairwise_keepFirst (kept units : List CodeUnit) :
    (keepFirst kept units).units.Pairwise fun a b => a.same b = false := by
  induction units generalizing kept with
  | nil => exact List.Pairwise.nil
  | cons u units ih =>
      rw [keepFirst]
      split
      · exact ih kept
      · refine List.pairwise_cons.2 ⟨fun k hk => ?_, ih (u :: kept)⟩
        exact (first_of_mem_keepFirst hk).2 u List.mem_cons_self

/-! ### The first unit of a name -/

/-- A unit that comes first of its name comes first of its key. -/
theorem find?_key_of_find?_same {units : List CodeUnit} {k : CodeUnit}
    (h : units.find? (·.same k) = some k) : units.find? (·.key = k.key) = some k := by
  obtain ⟨-, front, back, rfl, hfront⟩ := List.find?_eq_some_iff_append.1 h
  refine List.find?_eq_some_iff_append.2 ⟨by simp, front, back, rfl, fun u hu => ?_⟩
  have hsame := hfront u hu
  simp only [CodeUnit.same, Bool.not_eq_true', beq_eq_false_iff_ne] at hsame
  simp only [Bool.not_eq_true', decide_eq_false_iff_not, CodeUnit.key_eq_iff]
  exact fun heq => hsame heq.1

/-- Of sorted units of one name the first one has the least key. -/
theorem key_le_of_find?_same {units : List CodeUnit}
    (hsorted : units.Pairwise fun a b => a.key ≤ b.key) {k u : CodeUnit}
    (h : units.find? (·.same k) = some k) (hu : u ∈ units) (hname : u.qualified = k.qualified) :
    k.key ≤ u.key := by
  obtain ⟨-, front, back, rfl, hfront⟩ := List.find?_eq_some_iff_append.1 h
  rcases List.mem_append.1 hu with hu | hu
  · have hsame := hfront u hu
    simp [CodeUnit.same, hname] at hsame
  · rcases List.mem_cons.1 hu with rfl | hu
    · exact le_rfl
    · exact (List.pairwise_cons.1 (List.pairwise_append.1 hsorted).2.1).1 u hu

open SourceFile

/-- Of the units of each name the first one of the least file is kept, and all others are
dropped. -/
structure KeepsFirst (files : List SourceFile) (c : Collection) : Prop where
  /-- The units are in the order of their names, each name once. -/
  increasing : c.units.Pairwise fun a b => a.qualified < b.qualified
  /-- Every name has a unit. -/
  complete : ∀ f ∈ files, ∀ u ∈ f.units, ∃ k ∈ c.units, k.qualified = u.qualified
  /-- That unit is the first one of its name in its file, and no file before it has the name. -/
  least : ∀ k ∈ c.units, ∃ f ∈ files,
    f.units.find? (·.qualified = k.qualified) = some k ∧
      ∀ g ∈ files, ∀ u ∈ g.units, u.qualified = k.qualified → f.path.toString ≤ g.path.toString
  /-- All units but those are dropped, once each. -/
  dropped : (c.units ++ c.duplicates.map (·.dropped)).Perm (allUnits files)
  /-- A unit is dropped in favour of the one that has its name. -/
  kept : ∀ d ∈ c.duplicates, d.kept ∈ c.units ∧ d.kept.qualified = d.dropped.qualified

/-- The collection of files that were completed in an order. -/
def ofSourceFiles (files : List SourceFile) : Collection := ofFiles (files.map (·.units))

theorem ofSourceFiles_eq (files : List SourceFile) :
    ofSourceFiles files = keepFirst [] (CodeUnit.sorted (allUnits files)) := by
  rw [ofSourceFiles, ofFiles, allUnits, List.flatMap_def, CodeUnit.sorted]

/-- The collection is the same for every order of the files. -/
theorem ofSourceFiles_eq_of_perm {files files' : List SourceFile} (h : Separate files)
    (hperm : files.Perm files') : ofSourceFiles files = ofSourceFiles files' := by
  rw [ofSourceFiles_eq, ofSourceFiles_eq, h.sorted_eq_of_perm hperm]

/-- What is kept of files and what is dropped. -/
theorem keepsFirst_ofSourceFiles {files : List SourceFile} (h : Separate files) :
    KeepsFirst files (ofSourceFiles files) := by
  have hsorted := CodeUnit.pairwise_sorted (allUnits files)
  have hperm := CodeUnit.sorted_perm (allUnits files)
  rw [ofSourceFiles_eq]
  constructor
  case increasing =>
    have hle := hsorted.sublist (keepFirst_sublist [] _)
    refine (hle.and (pairwise_keepFirst [] _)).imp fun {a b} hab => ?_
    obtain ⟨hkey, hname⟩ := hab
    have hne : a.qualified ≠ b.qualified := by
      intro heq
      rw [CodeUnit.same_iff.2 heq] at hname
      cases hname
    exact (CodeUnit.key_le_iff.1 hkey).resolve_right fun heq => hne heq.1
  case complete =>
    intro f hf u hu
    have hmem : u ∈ CodeUnit.sorted (allUnits files) :=
      hperm.mem_iff.2 (List.mem_flatMap.2 ⟨f, hf, hu⟩)
    obtain ⟨k, hk, hsame⟩ := exists_kept [] hmem
    exact ⟨k, hk, CodeUnit.same_iff.1 hsame⟩
  case least =>
    intro k hk
    have hfind := (first_of_mem_keepFirst hk).1
    obtain ⟨f, hf, hkf⟩ := List.mem_flatMap.1
      (hperm.mem_iff.1 ((keepFirst_sublist [] _).mem hk))
    refine ⟨f, hf, ?_, fun g hg u hu hname => ?_⟩
    · rw [← h.find?_eq hf hkf]
      exact find?_key_of_find?_same hfind
    · have hle := key_le_of_find?_same hsorted hfind
        (hperm.mem_iff.2 (List.mem_flatMap.2 ⟨g, hg, hu⟩)) hname
      rw [← h.fileText_eq hf hkf, ← h.fileText_eq hg hu]
      rcases CodeUnit.key_le_iff.1 hle with hlt | ⟨-, htext⟩
      · exact absurd hname.symm (ne_of_lt hlt)
      · exact htext
  case dropped => exact (keepFirst_perm [] _).trans hperm
  case kept =>
    intro d hd
    obtain ⟨hmem, hsame⟩ := kept_of_mem_duplicates hd
    exact ⟨hmem, CodeUnit.same_iff.1 hsame⟩

end Collection

/-! ### Units know their files -/

namespace Java

mutual

theorem Node.file_of_mem_units :
    (n : Node) → (s : Surroundings) → ∀ u ∈ n.units s, u.file = s.file
  | ⟨role, kind, text, startLine, endLine, children⟩, s, u, hu => by
    rw [Node.units] at hu
    split at hu
    · rcases List.mem_cons.1 hu with rfl | hu
      · rfl
      · exact file_of_mem_unitsOfBody children (s.inside _) u hu
    · split at hu
      · exact file_of_mem_unitsOfBody children (s.inside _) u hu
      · split at hu
        · exact file_of_mem_unitsOfAll children s u hu
        · cases hu

theorem file_of_mem_unitsOfAll :
    (nodes : List Node) → (s : Surroundings) → ∀ u ∈ unitsOfAll s nodes, u.file = s.file
  | [], s, u, hu => by
    rw [unitsOfAll] at hu
    cases hu
  | n :: nodes, s, u, hu => by
    rw [unitsOfAll] at hu
    rcases List.mem_append.1 hu with hu | hu
    · exact Node.file_of_mem_units n s u hu
    · exact file_of_mem_unitsOfAll nodes s u hu

theorem file_of_mem_unitsOfBody :
    (nodes : List Node) → (s : Surroundings) → ∀ u ∈ unitsOfBody s nodes, u.file = s.file
  | [], s, u, hu => by
    rw [unitsOfBody] at hu
    cases hu
  | ⟨role, kind, text, startLine, endLine, children⟩ :: nodes, s, u, hu => by
    rw [unitsOfBody] at hu
    split at hu
    · exact file_of_mem_unitsOfAll children s u hu
    · exact file_of_mem_unitsOfBody nodes s u hu

end

end Java

/-- The units of a source carry the path of its file, however the source is parsed. -/
theorem Java.file_of_mem_extract (parse : Parser) {file : Option Path} {text : List Char}
    {u : CodeUnit} (hu : u ∈ extract parse file text) : u.file = file :=
  file_of_mem_unitsOfAll _ _ u hu

/-- The units that are extracted carry the path of the file in which they are found. -/
def Extraction.KeepsFiles (x : Extraction) : Prop :=
  ∀ l file text units, x.extract l (some file) text = .ok units → ∀ u ∈ units, u.file = some file

/-- The extractor of the program keeps the paths of the files. -/
theorem Extraction.keepsFiles_ofTree (t : FileTree) : (ofTree t).KeepsFiles := by
  intro l file text units h u hu
  cases l with
  | java =>
      cases h
      exact Java.file_of_mem_extract _ hu

/-! ### The index of a directory -/

/-- Lines that all warn are warnings. -/
theorem LogLine.warnings_map {α : Type} {line : α → LogLine} (h : ∀ a, (line a).level = .warning)
    (xs : List α) : warnings (xs.map line) = xs.map line :=
  List.filter_eq_self.2 (List.forall_mem_map.2 fun a _ => by rw [h]; rfl)

namespace Index

open SourceFile

/-- The index of a directory whose files were completed in an order. -/
def ofCompleted (root : Path) (completed : List SourceFile) : Index where
  root := root
  files := completed.map (·.path)
  failures := []
  collection := .ofSourceFiles completed

theorem file_of_mem_process {x : Extraction} (hx : x.KeepsFiles) {root : Path} {language : String}
    {file : Path} {units : List CodeUnit} (h : process x root language file = .ok units)
    {u : CodeUnit} (hu : u ∈ units) : u.file = some file := by
  delta process at h
  split at h
  · cases h
    cases hu
  · split at h
    · rw [extracted] at h
      cases hread : x.read (root.join file) with
      | error reason =>
          rw [hread] at h
          cases h
      | ok bytes =>
          rw [hread] at h
          exact hx _ _ _ _ h u hu
    · cases h
      cases hu

/-- An index is made of the selected files, and every unit carries the path of its file.  A file
that fails has no units, and is told as a failure. -/
theorem exists_completed {x : Extraction} (hx : x.KeepsFiles) {t : FileTree} {r : IndexRequest}
    {i : Index} (h : buildWith x t r = .ok i) :
    ∃ completed, i = { ofCompleted r.root completed with failures := i.failures } ∧
      ∀ f ∈ completed, ∀ u ∈ f.units, u.file = some f.path := by
  rw [buildWith] at h
  split at h
  · cases h
  · split at h
    · cases h
    · split at h
      · cases h
      · rename_i l _
        cases h
        refine ⟨((filterOf r l).select r.root (t.filesBelow r.root)).map fun file =>
          ⟨file, (process x r.root r.language file).toOption.getD []⟩, ?_, ?_⟩
        · simp [ofCompleted, Collection.ofSourceFiles, Function.comp_def]
        · intro f hf u hu
          obtain ⟨file, -, rfl⟩ := List.mem_map.1 hf
          dsimp only at hu ⊢
          cases hprocess : process x r.root r.language file with
          | error reason =>
              rw [hprocess] at hu
              cases hu
          | ok units =>
              rw [hprocess] at hu
              exact file_of_mem_process hx hprocess hu

/-- The warnings tell the files that failed, and the units that were dropped. -/
theorem warnings_log (i : Index) : LogLine.warnings i.log =
    i.failures.map FailedFile.line ++ i.collection.duplicates.map Duplicate.line := by
  have hfailures : (i.failures.map FailedFile.line).filter (·.level == .warning) = _ :=
    LogLine.warnings_map (fun _ => rfl) _
  have hduplicates :
      (i.collection.duplicates.map Duplicate.line).filter (·.level == .warning) = _ :=
    LogLine.warnings_map (fun _ => rfl) _
  -- the first and the last line only inform
  rw [LogLine.warnings, log, List.filter_append, List.filter_append, List.filter_append,
    hfailures, hduplicates, List.filter_cons_of_neg Bool.false_ne_true,
    List.filter_cons_of_neg Bool.false_ne_true, List.filter_nil, List.nil_append, List.append_nil]

/-- **The order in which files are completed does not matter**: units, warnings and call graph are
the same.  Of the units of each name the first one of the least file is kept, and there is one
warning for each of the others. -/
theorem completion_irrelevant {files files' : List SourceFile} (h : Separate files)
    (hperm : files.Perm files') (root : Path) :
    (ofCompleted root files').units = (ofCompleted root files).units ∧
      LogLine.warnings (ofCompleted root files').log =
        LogLine.warnings (ofCompleted root files).log ∧
      (ofCompleted root files').graph = (ofCompleted root files).graph ∧
      (ofCompleted root files).collection.KeepsFirst files ∧
      LogLine.warnings (ofCompleted root files).log =
        (ofCompleted root files).collection.duplicates.map Duplicate.line := by
  have hsame : (ofCompleted root files').collection = (ofCompleted root files).collection :=
    (Collection.ofSourceFiles_eq_of_perm h hperm).symm
  have hunits : (ofCompleted root files').units = (ofCompleted root files).units := by
    rw [units, units, hsame]
  refine ⟨hunits, ?_, ?_, Collection.keepsFirst_ofSourceFiles h, warnings_log _⟩
  · rw [warnings_log, warnings_log, hsame]
    rfl
  · rw [graph, graph, hunits]

end Index

/-- Two files with classes of one name, of which the second file has two. -/
def SourceFile.utilities : List SourceFile :=
  [⟨.ofParts ["b", "Util.java"],
      [{ CodeUnit.named "Util" with
          file := some (.ofParts ["b", "Util.java"]), startLine := 1, endLine := 1 },
        { CodeUnit.named "Other" with
          file := some (.ofParts ["b", "Util.java"]), startLine := 2, endLine := 2 }]⟩,
    ⟨.ofParts ["a", "Util.java"],
      [{ CodeUnit.named "Util" with
          file := some (.ofParts ["a", "Util.java"]), startLine := 4, endLine := 4 },
        { CodeUnit.named "Util" with
          file := some (.ofParts ["a", "Util.java"]), startLine := 7, endLine := 9 }]⟩]

/-- The file `a/Util.java` may be completed first or last. -/
theorem Index.completion_irrelevant_utilities :
    SourceFile.Separate SourceFile.utilities ∧
      (Index.ofCompleted (.ofParts []) SourceFile.utilities.reverse).units =
        (Index.ofCompleted (.ofParts []) SourceFile.utilities).units ∧
      (Index.ofCompleted (.ofParts []) SourceFile.utilities).collection.KeepsFirst
        SourceFile.utilities := by
  have hseparate : SourceFile.Separate SourceFile.utilities :=
    ⟨by decide +kernel, by decide +kernel, by decide +kernel⟩
  obtain ⟨hunits, -, -, hkept, -⟩ :=
    completion_irrelevant hseparate (List.reverse_perm _).symm (.ofParts [])
  exact ⟨hseparate, hunits, hkept⟩

end Cohesion
