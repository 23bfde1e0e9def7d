/-
The spelling of the name of a language.

A language is found under its name in any case, and so are the files with its extensions.  But a
file gives its units only if its language has exactly the given name.  So if the name is given in
lower case, all units of all selected files are in the index, up to those whose names are taken, and
a warning tells of every file that cannot be read or taken apart.  In any other spelling the same
files are selected, but there is nothing in the index, and no warning tells why.

Main definitions:
* `IndexRequest.inLowerCase` — a request with the name of the language in lower case;
* `Index.IsComplete` — all units of the selected files are in an index.

Main results:
* `Index.process_eq` — what a selected file gives;
* `Index.isComplete_of_buildWith` — **with the name in lower case every selected file gives all its
  units**;
* `Index.spelling_iff` — **in any other spelling there is nothing in the index**, so the graph is
  the same only if there is nothing to be found;
* `Index.exists_spelling_dependence` — a class is lost when the name is in capitals.
-/
import Cohesion.Proofs.Files.Trees
import Cohesion.Proofs.Indexing.Completion
import Cohesion.Proofs.Resolution.Calls

set_option autoImplicit false

namespace Cohesion

/-- A request with the name of the language in lower case. -/
def IndexRequest.inLowerCase (r : IndexRequest) : IndexRequest :=
  { r with language := Text.lowerCase r.language }

namespace Language

variable {l : Language}

theorem name_eq_of_ofName? {name : String} (h : ofName? name = some l) :
    l.name = Text.lowerCase name := by
  rw [ofName?] at h
  simpa using List.find?_some h

/-- The name of a language is in lower case. -/
theorem lowerCase_name (l : Language) : Text.lowerCase l.name = l.name := by
  cases l with
  | java => decide +kernel

theorem ofName?_lowerCase {name : String} (h : ofName? name = some l) :
    ofName? (Text.lowerCase name) = some l := by
  rw [← name_eq_of_ofName? h, ofName?, lowerCase_name, name_eq_of_ofName? h]
  exact h

/-- A file with one of the extensions of a language is of this language. -/
theorem ofPath?_eq_some {file : Path} (h : l.extensions.contains file.lowerSuffix = true) :
    ofPath? file = some l := by
  cases l with
  | java => exact List.find?_cons_of_pos h

end Language

namespace Index

variable {x : Extraction} {t : FileTree} {r : IndexRequest} {l : Language} {i : Index}

/-- The files that a request for a language selects. -/
def selected (t : FileTree) (r : IndexRequest) (l : Language) : List Path :=
  (filterOf r l).select r.root (t.filesBelow r.root)

/-- The units of a file under a directory: none if it cannot be read or taken apart. -/
def unitsIn (x : Extraction) (root : Path) (l : Language) (file : Path) : List CodeUnit :=
  (extracted x root l file).toOption.getD []

/-- All units of the selected files are in an index. -/
structure IsComplete (x : Extraction) (t : FileTree) (r : IndexRequest) (l : Language)
    (i : Index) : Prop where
  /-- The files are those that are selected. -/
  files : i.files = selected t r l
  /-- They are there. -/
  readable : t.IsSound → ∀ file ∈ i.files, ∃ bytes, t.read? (r.root.join file) = some bytes
  /-- If one of them cannot be read or taken apart, a warning tells why. -/
  told : ∀ file ∈ i.files, ∀ reason, extracted x r.root l file = .error reason →
    (FailedFile.mk (r.root.join file) reason).line ∈ LogLine.warnings i.log
  /-- Every unit of every other file is kept or dropped, once. -/
  all : (i.units ++ i.collection.duplicates.map (·.dropped)).Perm
    (i.files.flatMap (unitsIn x r.root l))
  /-- A unit is dropped in favour of one that has its name. -/
  kept : ∀ d ∈ i.collection.duplicates, d.kept ∈ i.units ∧ d.kept.qualified = d.dropped.qualified

/-! ### What a file gives -/

theorem hasExtension_of_mem_selected {file : Path} (h : file ∈ selected t r l) :
    l.extensions.contains file.lowerSuffix = true := by
  rw [selected, SourceFilter.select, List.mem_filter, SourceFilter.accepts, Bool.and_eq_true,
    Bool.and_eq_true] at h
  exact h.2.1.1

theorem mem_filesBelow_of_mem_selected {file : Path} (h : file ∈ selected t r l) :
    file ∈ t.filesBelow r.root :=
  (List.mergeSort_perm _ _).mem_iff.1 (List.mem_of_mem_filter h)

/-- A selected file is taken apart if the name of its language is the given one, and gives nothing
otherwise. -/
theorem process_eq {file : Path} (h : file ∈ selected t r l) (language : String) :
    process x r.root language file =
      if l.name = language then extracted x r.root l file else .ok [] := by
  have hpath := Language.ofPath?_eq_some (hasExtension_of_mem_selected h)
  delta process
  simp only [hpath, beq_iff_eq]

/-- What the selected files give. -/
def results (x : Extraction) (t : FileTree) (r : IndexRequest) (l : Language) :
    List (Except String (List CodeUnit)) :=
  (selected t r l).map fun file =>
    if l.name = r.language then extracted x r.root l file else .ok []

/-- The index of a directory is made of what the selected files give. -/
theorem buildWith_eq_ok (x : Extraction) (hroot : t.isDirectory r.root = true)
    (h : Language.ofName? r.language = some l) :
    buildWith x t r = .ok
      { root := r.root, files := selected t r l
        failures := ((selected t r l).zip (results x t r l)).filterMap fun (file, result) =>
          failure? r.root file result
        collection := .ofFiles ((results x t r l).map fun result => result.toOption.getD []) } := by
  have hentry : (t.entry? r.root).isNone = false := by
    rw [FileTree.isDirectory] at hroot
    split at hroot
    · rename_i hentry
      rw [hentry]
      rfl
    · cases hroot
  have hresults : (selected t r l).map (process x r.root r.language) = results x t r l :=
    List.map_congr_left fun file hfile => process_eq hfile r.language
  rw [← hresults, buildWith, hentry, hroot, h]
  rfl

/-- What is no directory has no index, in whatever spelling the language is given. -/
theorem buildWith_eq_error (x : Extraction) (hroot : t.isDirectory r.root = false) :
    ∃ e, buildWith x t r = .error e ∧ buildWith x t r.inLowerCase = .error e := by
  rw [buildWith, buildWith]
  have hsame : r.inLowerCase.root = r.root := rfl
  rw [hsame, hroot]
  cases (t.entry? r.root).isNone with
  | true => exact ⟨_, rfl, rfl⟩
  | false => exact ⟨_, rfl, rfl⟩

/-! ### Spellings -/

/-- **With the name in lower case every selected file gives all its units.** -/
theorem isComplete_of_buildWith (h : Language.ofName? r.language = some l)
    (hlower : r.language = Text.lowerCase r.language) (hbuild : buildWith x t r = .ok i) :
    IsComplete x t r l i := by
  have hname : l.name = r.language := (Language.name_eq_of_ofName? h).trans hlower.symm
  have hresults : results x t r l = (selected t r l).map (extracted x r.root l) := by
    rw [results]
    simp only [hname, if_true]
  cases hroot : t.isDirectory r.root with
  | false =>
      obtain ⟨e, he, -⟩ := buildWith_eq_error x hroot
      rw [he] at hbuild
      cases hbuild
  | true =>
      rw [buildWith_eq_ok x hroot h, hresults] at hbuild
      cases hbuild
      constructor
      case files => rfl
      case readable =>
        intro hsound file hfile
        exact hsound.read?_join (mem_filesBelow_of_mem_selected hfile)
      case told =>
        intro file hfile reason hreason
        rw [warnings_log]
        refine List.mem_append_left _ (List.mem_map_of_mem (List.mem_filterMap.2 ?_))
        refine ⟨(file, .error reason), ?_, rfl⟩
        rw [← List.map_prod_left_eq_zip, ← hreason]
        exact List.mem_map_of_mem hfile
      case all =>
        rw [List.flatMap_def, List.map_map]
        exact (Collection.keepFirst_perm [] _).trans (List.mergeSort_perm _ _)
      case kept =>
        intro d hd
        obtain ⟨hmem, hsame⟩ := Collection.kept_of_mem_duplicates hd
        exact ⟨hmem, CodeUnit.same_iff.1 hsame⟩

/-- The same files are selected in every spelling. -/
theorem IsComplete.of_inLowerCase (h : IsComplete x t r.inLowerCase l i) :
    IsComplete x t r l i where
  files := h.files
  readable := h.readable
  told := h.told
  all := h.all
  kept := h.kept

/-- In any other spelling there is nothing in the index, and nothing fails. -/
theorem empty_of_buildWith (h : Language.ofName? r.language = some l)
    (hother : r.language ≠ Text.lowerCase r.language) (hbuild : buildWith x t r = .ok i) :
    i.failures = [] ∧ i.collection = ⟨[], []⟩ := by
  have hname : ¬l.name = r.language := fun heq =>
    hother (heq.symm.trans (Language.name_eq_of_ofName? h))
  have hresults : results x t r l = (selected t r l).map fun _ => .ok [] := by
    rw [results]
    simp only [hname, if_false]
  cases hroot : t.isDirectory r.root with
  | false =>
      obtain ⟨e, he, -⟩ := buildWith_eq_error x hroot
      rw [he] at hbuild
      cases hbuild
  | true =>
      rw [buildWith_eq_ok x hroot h, hresults] at hbuild
      cases hbuild
      constructor
      · rw [List.filterMap_eq_nil_iff]
        rintro ⟨file, result⟩ hmem
        obtain ⟨-, -, rfl⟩ := List.mem_map.1 (List.of_mem_zip hmem).2
        rfl
      · have hnone : (((selected t r l).map fun _ => (.ok [] : Except String _)).map
            fun result => result.toOption.getD []).flatten = ([] : List CodeUnit) := by
          simp [Except.toOption]
        rw [Collection.ofFiles, hnone, List.mergeSort_nil, Collection.keepFirst]

/-- Indexes have the same graph if they have the same units. -/
theorem graph_eq_iff {i j : Index} : i.graph = j.graph ↔ i.units = j.units := by
  constructor
  · intro h
    have hunits := congrArg CallGraph.units h
    rwa [graph, graph, CallGraph.units_ofUnits, CallGraph.units_ofUnits] at hunits
  · intro h
    rw [graph, graph, h]

/-- **The spelling of the name of a language matters.**  However files are read and taken apart,
whether there is an index, and of which files, does not depend on it.  With the name in lower case
all units of the selected files are in the index, and a warning tells of every file that fails.  In
any other spelling nothing is in it, and there is no warning; so the call graph is that of the name
in lower case exactly if the name is in lower case, or if there is nothing to be found. -/
theorem spelling_iff (x : Extraction) (t : FileTree) (h : Language.ofName? r.language = some l) :
    (∀ e, buildWith x t r = .error e ↔ buildWith x t r.inLowerCase = .error e) ∧
      ∀ i, buildWith x t r = .ok i → ∃ j, buildWith x t r.inLowerCase = .ok j ∧
        i.files = j.files ∧ IsComplete x t r l j ∧
        (i.graph = j.graph ↔ r.language = Text.lowerCase r.language ∨ j.units = []) ∧
        (r.language ≠ Text.lowerCase r.language →
          i.units = [] ∧ i.graph = .ofUnits [] ∧ LogLine.warnings i.log = []) := by
  have hlower : Language.ofName? r.inLowerCase.language = some l := Language.ofName?_lowerCase h
  have htwice : r.inLowerCase.language = Text.lowerCase r.inLowerCase.language := by
    rw [IndexRequest.inLowerCase, ← Language.name_eq_of_ofName? h, Language.lowerCase_name]
  cases hroot : t.isDirectory r.root with
  | false =>
      obtain ⟨e, he, he'⟩ := buildWith_eq_error x hroot
      rw [he, he']
      exact ⟨fun _ => Iff.rfl, nofun⟩
  | true =>
      obtain ⟨j, hj⟩ : ∃ j, buildWith x t r.inLowerCase = .ok j :=
        ⟨_, buildWith_eq_ok x hroot hlower⟩
      have hcomplete := (isComplete_of_buildWith hlower htwice hj).of_inLowerCase
      refine ⟨fun e => ?_, fun i hi => ⟨j, hj, ?_, hcomplete, ?_, fun hother => ?_⟩⟩
      · rw [buildWith_eq_ok x hroot h, hj]
        exact ⟨nofun, nofun⟩
      · rw [buildWith_eq_ok x hroot h] at hi
        cases hi
        exact hcomplete.files.symm
      · rw [graph_eq_iff]
        by_cases hsame : r.language = Text.lowerCase r.language
        · have hrequest : r.inLowerCase = r := by rw [IndexRequest.inLowerCase, ← hsame]
          rw [hrequest, hi] at hj
          cases hj
          exact ⟨fun _ => Or.inl hsame, fun _ => rfl⟩
        · have hnone : i.units = [] := by rw [units, (empty_of_buildWith h hsame hi).2]
          rw [hnone]
          exact ⟨fun hunits => Or.inr hunits.symm, fun hor => (hor.resolve_left hsame).symm⟩
      · obtain ⟨hfailures, hcollection⟩ := empty_of_buildWith h hother hi
        have hnone : i.units = [] := by rw [units, hcollection]
        rw [graph, hnone, warnings_log, hfailures, hcollection]
        exact ⟨rfl, rfl, rfl⟩

/-! ### A directory with one class -/

/-- A directory with a file that declares a class. -/
def singleTree : FileTree :=
  (FileTree.empty ⟨"/", []⟩).insert (.ofParts ["proj", "A.java"])
    (.file (Text.Utf8.encode "class A \x7b \x7d"))

/-- A request to index it. -/
def singleRequest (language : String) : IndexRequest :=
  { root := .ofParts ["proj"], language := language }

/-- The unit of the class. -/
def singleUnit : CodeUnit where
  name := "A"
  qualified := "A"
  file := some (.ofParts ["A.java"])
  startLine := 1
  endLine := 1

theorem selected_single (language : String) :
    selected singleTree (singleRequest language) .java = [.ofParts ["A.java"]] := by
  have hfiles : singleTree.filesBelow (singleRequest language).root = [.ofParts ["A.java"]] := by
    with_unfolding_all rfl
  have haccepts : (filterOf (singleRequest language) .java).accepts (singleRequest language).root
      (.ofParts ["A.java"]) = true := by
    change (filterOf (singleRequest "java") .java).accepts (.ofParts ["proj"]) _ = true
    decide +kernel
  rw [selected, SourceFilter.select, hfiles, SourceFilter.inOrder, List.mergeSort_singleton,
    List.filter_cons_of_pos haccepts, List.filter_nil]

theorem extracted_single (language : String) :
    extracted (.ofTree singleTree) (singleRequest language).root .java (.ofParts ["A.java"]) =
      .ok [singleUnit] := by
  change extracted (.ofTree singleTree) (.ofParts ["proj"]) .java _ = _
  decide +kernel

/-- The class is in the index if the name of the language is in lower case. -/
theorem exists_single {language : String} (h : Language.ofName? language = some .java) :
    ∃ i, build singleTree (singleRequest language) = .ok i ∧
      i.units = if "java" = language then [singleUnit] else [] := by
  have hroot : singleTree.isDirectory (singleRequest language).root = true := by
    with_unfolding_all rfl
  refine ⟨_, buildWith_eq_ok (.ofTree singleTree) hroot h, ?_⟩
  rw [results, selected_single, List.map_singleton, extracted_single, List.map_singleton]
  change (Collection.ofFiles [(if "java" = language then _ else _ : Except String _).toOption.getD
    []]).units = _
  split
  · rw [Collection.ofFiles, List.flatten_singleton]
    change (Collection.keepFirst [] ([singleUnit].mergeSort _)).units = _
    rw [List.mergeSort_singleton]
    rfl
  · rw [Collection.ofFiles, List.flatten_singleton]
    change (Collection.keepFirst [] ([].mergeSort _)).units = _
    rw [List.mergeSort_nil]
    rfl

theorem ofName?_capitals : Language.ofName? "JAVA" = some .java := by
  decide +kernel

theorem ofName?_small : Language.ofName? "java" = some .java := by
  decide +kernel

theorem lowerCase_capitals : Text.lowerCase "JAVA" = "java" := by
  decide +kernel

theorem inLowerCase_capitals : (singleRequest "JAVA").inLowerCase = singleRequest "java" := by
  rw [IndexRequest.inLowerCase, singleRequest, lowerCase_capitals]
  rfl

/-- With the name in capitals the file is selected, but its class is in the index only with the name
in lower case. -/
theorem spelling_iff_capitals : Language.ofName? "JAVA" = some .java ∧ singleTree.IsSound ∧
    ∃ i j, build singleTree (singleRequest "JAVA") = .ok i ∧
      build singleTree (singleRequest "java") = .ok j ∧
      i.files = [.ofParts ["A.java"]] ∧ i.units = [] ∧ LogLine.warnings i.log = [] ∧
      IsComplete (.ofTree singleTree) singleTree (singleRequest "JAVA") .java j ∧
      j.units = [singleUnit] := by
  have hcapitals : "JAVA" ≠ Text.lowerCase "JAVA" := by
    rw [lowerCase_capitals]
    decide
  obtain ⟨i, hi, -⟩ := exists_single ofName?_capitals
  obtain ⟨k, hk, hunits⟩ := exists_single ofName?_small
  obtain ⟨-, hbuilt⟩ := spelling_iff (r := singleRequest "JAVA") (.ofTree singleTree)
    singleTree ofName?_capitals
  obtain ⟨j, hj, hfiles, hcomplete, -, hother⟩ := hbuilt i hi
  obtain ⟨hnone, -, hquiet⟩ := hother hcapitals
  rw [inLowerCase_capitals] at hj
  cases hk.symm.trans hj
  refine ⟨ofName?_capitals, by decide +kernel, i, k, hi, hk, ?_, hnone, hquiet, hcomplete, hunits⟩
  rw [hfiles, hcomplete.files, selected_single]

/-- The call graph depends on the spelling of the name of the language. -/
theorem exists_spelling_dependence : ∃ (t : FileTree) (r : IndexRequest) (i j : Index),
    (Language.ofName? r.language).isSome = true ∧ build t r = .ok i ∧
      build t r.inLowerCase = .ok j ∧ i.graph ≠ j.graph := by
  obtain ⟨i, hi, hnone⟩ := exists_single ofName?_capitals
  obtain ⟨j, hj, hunits⟩ := exists_single ofName?_small
  refine ⟨singleTree, singleRequest "JAVA", i, j, ?_, hi, inLowerCase_capitals ▸ hj, ?_⟩
  · exact Option.isSome_of_mem ofName?_capitals
  · intro hgraph
    rw [graph_eq_iff, hnone, hunits] at hgraph
    simp at hgraph

end Index

end Cohesion
