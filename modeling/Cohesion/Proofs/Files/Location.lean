/-
Where a directory stands.

The patterns that are always excluded leave out the files of tools: those in a directory whose name
ends like one of a few names.  A file is excluded by its path seen from the given directory, but
also by its path with this directory.  So a directory that stands under a directory of tools has no
source files at all, and its files are found when it stands elsewhere.

Main definitions:
* `toolNames`, `isToolName` — how the names of directories of tools end;
* `Path.isUnderTools` — a path that leads through such a directory;
* `SourceFilter.keeps` — the files that are selected in a directory that stands elsewhere.

Main results:
* `Glob.between_accepts_iff` — a pattern between two stars is found in a text;
* `SourceFilter.excludes_eq` — **what the default patterns exclude**;
* `SourceFilter.select_eq` — which files are selected;
* `SourceFilter.location_iff` — **the same files are selected at two locations** exactly if both of
  them or none is under tools, or if there is nothing to be selected;
* `SourceFilter.exists_location_dependence` — two locations at which different files are selected.
-/
import Cohesion.Files.Search
import Cohesion.Proofs.Files.Trees
import Mathlib.Data.List.Infix
import Mathlib.Data.List.Sort
import Mathlib.Data.String.Basic

set_option autoImplicit false

namespace Cohesion

/-! ### Patterns between stars -/

namespace Glob

variable {word : List Char}

/-- A character that stands for itself in a pattern. -/
def isPlain (c : Char) : Bool := c != '*' && c != '?' && c != '['

theorem partsFrom_append (h : ∀ c ∈ word, isPlain c = true) (rest : List Char) :
    partsFrom 0 (word ++ rest) = word.map .char ++ partsFrom 0 rest := by
  induction word with
  | nil => rfl
  | cons c word ih =>
      rw [List.forall_mem_cons, isPlain, Bool.and_eq_true, Bool.and_eq_true, bne_iff_ne,
        bne_iff_ne, bne_iff_ne] at h
      obtain ⟨⟨⟨hstar, hmark⟩, hbracket⟩, hword⟩ := h
      rw [List.cons_append, partsFrom, if_neg (by simpa using hstar), if_neg (by simpa using hmark),
        if_neg (by simpa using hbracket), ih hword, List.map_cons, List.cons_append]

theorem mem_ends_iff {e cs : List Char} : e ∈ ends cs ↔ e <:+ cs := by
  induction cs with
  | nil => simp [ends]
  | cons c cs ih => rw [ends, List.mem_cons, ih, List.suffix_cons_iff]

/-- Characters match themselves. -/
theorem matchParts_append_iff (parts : List GlobPart) {cs : List Char} :
    matchParts (word.map .char ++ parts) cs = true ↔
      ∃ rest, cs = word ++ rest ∧ matchParts parts rest = true := by
  induction word generalizing cs with
  | nil => simp
  | cons c word ih =>
      cases cs with
      | nil => simp [matchParts]
      | cons d cs =>
          rw [List.map_cons, List.cons_append, matchParts, Bool.and_eq_true, ih, partMatches,
            beq_iff_eq]
          · simp only [List.cons_append, List.cons.injEq, and_assoc, exists_and_left]
          · exact nofun

/-- A star matches any text in front. -/
theorem matchParts_anyText_iff {parts : List GlobPart} {cs : List Char} :
    matchParts (.anyText :: parts) cs = true ↔ ∃ e, e <:+ cs ∧ matchParts parts e = true := by
  rw [matchParts, List.any_eq_true]
  simp only [mem_ends_iff]

/-- A pattern between two stars is found in a text. -/
theorem between_accepts_iff {pattern : String} (h : ∀ c ∈ pattern.toList, isPlain c = true)
    (text : String) :
    (ofString ("*" ++ pattern ++ "*")).accepts text = true ↔ pattern.toList <:+: text.toList := by
  have hparts : (ofString ("*" ++ pattern ++ "*")).parts =
      .anyText :: (pattern.toList.map .char ++ [.anyText]) := by
    have htext : ("*" ++ pattern ++ "*").toList = '*' :: (pattern.toList ++ ['*']) := by simp
    change partsFrom 0 ("*" ++ pattern ++ "*").toList = _
    rw [htext, partsFrom, if_pos (beq_self_eq_true _), partsFrom_append h]
    rfl
  rw [accepts_eq_matchParts, hparts, matchParts_anyText_iff, List.infix_iff_prefix_suffix]
  simp only [matchParts_append_iff]
  constructor
  · rintro ⟨e, he, rest, rfl, -⟩
    exact ⟨_, List.prefix_append _ _, he⟩
  · rintro ⟨e, ⟨rest, rfl⟩, he⟩
    exact ⟨_, he, rest, rfl, matchParts_anyText_iff.2 ⟨[], List.nil_suffix, rfl⟩⟩

end Glob

/-! ### Ends of pieces -/

namespace Text

variable {sep : Char} {word : List Char}

/-- A word with the separator after it is found at the end of the first piece or later. -/
theorem infix_append_cons_iff (hword : sep ∉ word) {piece : List Char} (hpiece : sep ∉ piece)
    (rest : List Char) :
    word ++ [sep] <:+: piece ++ sep :: rest ↔ word <:+ piece ∨ word ++ [sep] <:+: rest := by
  constructor
  · rintro ⟨front, back, heq⟩
    rw [← List.append_assoc, List.append_assoc, List.singleton_append,
      List.append_eq_append_iff] at heq
    obtain ⟨more, rfl, hmore⟩ | ⟨more, hmore, hrest⟩ := heq
    · -- the separator of the word does not stand inside the piece
      cases more with
      | nil => exact Or.inl ⟨front, by simp⟩
      | cons c more =>
          rw [List.cons_append, List.cons.injEq] at hmore
          exact absurd (by simp [hmore.1]) hpiece
    · cases more with
      | nil => exact Or.inl ⟨front, by simpa using hmore⟩
      | cons c more =>
          rw [List.cons_append, List.cons.injEq] at hrest
          obtain ⟨rfl, rfl⟩ := hrest
          -- the separator after the piece does not stand inside the word
          rw [List.append_eq_append_iff] at hmore
          obtain ⟨inner, -, hinner⟩ | ⟨inner, -, hinner⟩ := hmore
          · exact absurd (by simp [hinner]) hword
          · cases inner with
            | nil =>
                rw [List.nil_append] at hinner
                exact absurd (by simp [← hinner]) hword
            | cons d inner =>
                rw [List.cons_append, List.cons.injEq] at hinner
                exact Or.inr ⟨inner, back, by simp [hinner.2]⟩
  · rintro (⟨front, rfl⟩ | ⟨front, back, rfl⟩)
    · exact ⟨front, rest, by simp⟩
    · exact ⟨piece ++ sep :: front, back, by simp⟩

/-- A word with the separator after it is found at the ends of all pieces but the last one. -/
theorem infix_intercalate_iff (hword : sep ∉ word) {pieces : List (List Char)}
    (h : ∀ piece ∈ pieces, sep ∉ piece) :
    word ++ [sep] <:+: [sep].intercalate pieces ↔ ∃ piece ∈ pieces.dropLast, word <:+ piece := by
  induction pieces with
  | nil => simp
  | cons piece pieces ih =>
      rw [List.forall_mem_cons] at h
      cases pieces with
      | nil =>
          have hnone : ¬word ++ [sep] <:+: piece := fun hfound =>
            h.1 (hfound.subset (by simp))
          simpa using hnone
      | cons next pieces =>
          rw [List.intercalate_cons_cons, List.append_assoc, List.singleton_append,
            infix_append_cons_iff hword h.1, ih h.2, List.dropLast_cons_cons]
          simp

end Text

/-! ### Directories of tools -/

/-- How the names of directories of tools end. -/
def toolNames : List String := [".git", "node_modules", "build", "target", ".gradle", ".idea"]

/-- A directory of tools, by its name. -/
def isToolName (name : String) : Bool :=
  toolNames.any fun tool => tool.toList.isSuffixOf name.toList

/-- The default patterns are those of the names. -/
theorem defaultExcludes_eq :
    defaultExcludes = toolNames.map fun tool => "*" ++ (tool ++ "/") ++ "*" := by
  decide +kernel

/-- The names can be written in patterns, and have no slash in them. -/
theorem isPlain_of_mem_toolNames {tool : String} (h : tool ∈ toolNames) :
    (∀ c ∈ (tool ++ "/").toList, Glob.isPlain c = true) ∧ '/' ∉ tool.toList ∧
      tool.toList ≠ [] := by
  have hall : (toolNames.all fun tool => (tool ++ "/").toList.all Glob.isPlain &&
      !tool.toList.contains '/' && !tool.toList.isEmpty) = true := by
    decide +kernel
  have htool := List.all_eq_true.1 hall tool h
  rw [Bool.and_eq_true, Bool.and_eq_true, List.all_eq_true, Bool.not_eq_true', Bool.not_eq_true',
    List.isEmpty_eq_false_iff, List.contains_eq_mem, decide_eq_false_iff_not] at htool
  exact ⟨htool.1.1, htool.1.2, htool.2⟩

namespace Path

variable {p : Path} {word : List Char}

/-- A path that leads through a directory of tools, or to one. -/
def isUnderTools (p : Path) : Bool := p.parts.any isToolName

theorem isUnderTools_append (root : String) (front back : List String) :
    isUnderTools ⟨root, front ++ back⟩ =
      (isUnderTools ⟨root, front⟩ || isUnderTools ⟨root, back⟩) :=
  List.any_append

/-- The slashes of the root do not count. -/
theorem infix_root_append_iff {root : String} (hroot : root = "" ∨ root = "/" ∨ root = "//")
    (hword : '/' ∉ word) (hne : word ≠ []) (cs : List Char) :
    word ++ ['/'] <:+: root.toList ++ cs ↔ word ++ ['/'] <:+: cs := by
  have hslash (rest : List Char) : word ++ ['/'] <:+: '/' :: rest ↔ word ++ ['/'] <:+: rest := by
    rw [← List.nil_append ('/' :: rest), Text.infix_append_cons_iff hword List.not_mem_nil,
      List.suffix_nil, or_iff_right hne]
  rcases hroot with rfl | rfl | rfl
  · rfl
  · exact hslash cs
  · exact (hslash ('/' :: cs)).trans (hslash cs)

/-- A word with a slash after it is found in the text of a path at the ends of its parts, the last
one apart. -/
theorem infix_toString_iff (hp : p.IsNormal) (hparts : p.parts ≠ []) (hword : '/' ∉ word)
    (hne : word ≠ []) :
    word ++ ['/'] <:+: p.toString.toList ↔ ∃ part ∈ p.parts.dropLast, word <:+ part.toList := by
  rw [toList_toString hparts, infix_root_append_iff hp.root hword hne, body,
    Text.infix_intercalate_iff hword (by simpa using hp.slash), ← List.map_dropLast]
  simp only [List.mem_map, exists_exists_and_eq_and]

end Path

namespace SourceFilter

variable {f : SourceFilter} {t t' : FileTree} {dir dir' file p : Path} {files : List Path}

theorem anyAccepts_pair (patterns : List String) (text text' : String) :
    anyAccepts patterns [text, text'] =
      (anyAccepts patterns [text] || anyAccepts patterns [text']) := by
  rw [Bool.eq_iff_iff]
  simp only [anyAccepts, List.any_eq_true, Bool.or_eq_true, List.any_cons, List.any_nil,
    Bool.or_false, and_or_left, exists_or]

/-- The default patterns match the paths that lead through directories of tools. -/
theorem anyAccepts_defaultExcludes (hp : p.IsNormal) (hparts : p.parts ≠ []) :
    anyAccepts defaultExcludes [p.toString] = p.parent.isUnderTools := by
  rw [Bool.eq_iff_iff, anyAccepts, defaultExcludes_eq, List.any_map, List.any_eq_true,
    Path.isUnderTools, List.any_eq_true]
  have htool (tool : String) (h : tool ∈ toolNames) :
      (Glob.ofString ("*" ++ (tool ++ "/") ++ "*")).accepts p.toString = true ↔
        ∃ part ∈ p.parts.dropLast, tool.toList <:+ part.toList := by
    obtain ⟨hplain, hslash, hne⟩ := isPlain_of_mem_toolNames h
    rw [Glob.between_accepts_iff hplain, String.toList_append]
    exact Path.infix_toString_iff hp hparts hslash hne
  constructor
  · rintro ⟨tool, hmem, haccepts⟩
    obtain ⟨part, hpart, hsuffix⟩ := (htool tool hmem).1 (by simpa using haccepts)
    exact ⟨part, hpart, List.any_eq_true.2 ⟨tool, hmem, List.isSuffixOf_iff_suffix.2 hsuffix⟩⟩
  · rintro ⟨part, hpart, hname⟩
    obtain ⟨tool, hmem, hsuffix⟩ := List.any_eq_true.1 hname
    exact ⟨tool, hmem, by
      simpa using (htool tool hmem).2 ⟨part, hpart, List.isSuffixOf_iff_suffix.1 hsuffix⟩⟩

/-- A file as it is listed below a directory. -/
structure IsListed (file : Path) : Prop where
  /-- The path is as it is read. -/
  normal : file.IsNormal
  /-- It is seen from the directory. -/
  relative : file.root = ""
  /-- It is not the directory itself. -/
  nonempty : file.parts ≠ []

theorem isListed_of_mem (ht : t.IsSound) (h : file ∈ t.filesBelow dir) : IsListed file := by
  obtain ⟨-, -, hroot, hparts, -⟩ := FileTree.mem_filesBelow_iff.1 h
  exact ⟨ht.isNormal_of_mem_filesBelow h, hroot, hparts⟩

theorem IsListed.join_eq (h : IsListed file) (dir : Path) :
    dir.join file = ⟨dir.root, dir.parts ++ file.parts⟩ := by
  rw [Path.join, Path.isAbsolute, h.relative]
  rfl

/-- **What the default patterns exclude**: all files if the directory itself is under tools, else
those that are in a directory of tools below it. -/
theorem excludes_eq (hf : f.exclude = defaultExcludes) (hdir : dir.IsNormal)
    (h : IsListed file) : f.excludes dir file = (dir.isUnderTools || file.parent.isUnderTools) := by
  have hjoined : (dir.join file).IsNormal := by
    rw [h.join_eq]
    exact ⟨hdir.root, List.forall_mem_append.2 ⟨hdir.isPart, h.normal.isPart⟩,
      List.forall_mem_append.2 ⟨hdir.slash, h.normal.slash⟩⟩
  have hne : (dir.join file).parts ≠ [] := by
    rw [h.join_eq]
    exact List.append_ne_nil_of_right_ne_nil _ h.nonempty
  have hparent : (dir.join file).parent = ⟨dir.root, dir.parts ++ file.parent.parts⟩ := by
    rw [h.join_eq, Path.parent, List.dropLast_append_of_ne_nil h.nonempty]
    rfl
  rw [excludes, hf, anyAccepts_pair, anyAccepts_defaultExcludes h.normal h.nonempty,
    anyAccepts_defaultExcludes hjoined hne, hparent, Path.isUnderTools_append]
  change (file.parent.isUnderTools || (dir.isUnderTools || file.parent.isUnderTools)) = _
  rw [Bool.or_left_comm, Bool.or_self]

/-! ### Selections -/

/-- A file is selected in a directory that is not under tools. -/
def keeps (f : SourceFilter) (file : Path) : Bool :=
  f.hasExtension file && !file.parent.isUnderTools && f.focuses file

theorem accepts_eq (hf : f.exclude = defaultExcludes) (hdir : dir.IsNormal) (h : IsListed file) :
    f.accepts dir file = (!dir.isUnderTools && f.keeps file) := by
  rw [accepts, excludes_eq hf hdir h, keeps, Bool.not_or]
  cases dir.isUnderTools <;> simp

theorem mem_inOrder_iff : file ∈ inOrder files ↔ file ∈ files :=
  (List.mergeSort_perm _ _).mem_iff

/-- Which files are selected: none in a directory under tools. -/
theorem select_eq (hf : f.exclude = defaultExcludes) (hdir : dir.IsNormal)
    (h : ∀ file ∈ files, IsListed file) :
    f.select dir files = if dir.isUnderTools then [] else (inOrder files).filter f.keeps := by
  have haccepts : f.select dir files =
      (inOrder files).filter fun file => !dir.isUnderTools && f.keeps file :=
    List.filter_congr fun file hfile => accepts_eq hf hdir (h file (mem_inOrder_iff.1 hfile))
  rw [haccepts]
  cases dir.isUnderTools with
  | true => exact List.filter_eq_nil_iff.2 fun _ _ => Bool.false_ne_true
  | false => rfl

/-- The order of the files does not depend on the order in which they are found. -/
theorem inOrder_eq_of_perm {files' : List Path} (hperm : files.Perm files')
    (h : ∀ file ∈ files, IsListed file) : inOrder files = inOrder files' := by
  have hle {p q : Path} : (!q.before p) = true ↔ p.parts ≤ q.parts := by
    rw [Path.before, Bool.not_eq_true', decide_eq_false_iff_not, not_lt]
  have hsorted (files : List Path) :
      (inOrder files).Pairwise fun p q => (!q.before p) = true := by
    refine List.pairwise_mergeSort (fun p q r hpq hqr => ?_) (fun p q => ?_) files
    · exact hle.2 ((hle.1 hpq).trans (hle.1 hqr))
    · rw [Bool.or_eq_true, hle, hle]
      exact le_total _ _
  have hsame : (inOrder files).Perm (inOrder files') :=
    (List.mergeSort_perm _ _).trans (hperm.trans (List.mergeSort_perm _ _).symm)
  refine List.Perm.eq_of_pairwise (fun p q hp hq hpq hqp => ?_) (hsorted _) (hsorted _) hsame
  have hlisted := h p (mem_inOrder_iff.1 hp)
  have hlisted' := h q (mem_inOrder_iff.1 (hsame.mem_iff.2 hq))
  obtain ⟨root, parts⟩ := p
  obtain ⟨root', parts'⟩ := q
  cases hlisted.relative
  cases hlisted'.relative
  cases le_antisymm (hle.1 hpq) (hle.1 hqp)
  rfl

/-- **Where a directory stands matters.**  Let the same files be below two directories.  With the
default patterns nothing is selected in a directory under tools; elsewhere the selected files are
the kept ones, in the order of their paths.  So the same files are selected at the two locations
exactly if both of them or none is under tools, or if there is nothing to be selected. -/
theorem location_iff (hf : f.exclude = defaultExcludes) (ht : t.IsSound) (ht' : t'.IsSound)
    (hdir : dir.IsNormal) (hdir' : dir'.IsNormal)
    (hsame : (t.filesBelow dir).Perm (t'.filesBelow dir')) :
    (f.select dir (t.filesBelow dir) =
        if dir.isUnderTools then [] else (inOrder (t.filesBelow dir)).filter f.keeps) ∧
      (f.select dir (t.filesBelow dir) = f.select dir' (t'.filesBelow dir') ↔
        dir.isUnderTools = dir'.isUnderTools ∨
          ∀ file ∈ t.filesBelow dir, f.keeps file = false) := by
  have hlisted : ∀ file ∈ t.filesBelow dir, IsListed file := fun _ => isListed_of_mem ht
  have hlisted' : ∀ file ∈ t'.filesBelow dir', IsListed file := fun _ => isListed_of_mem ht'
  have hselect := select_eq hf hdir hlisted
  refine ⟨hselect, ?_⟩
  have hnone : (inOrder (t.filesBelow dir)).filter f.keeps = [] ↔
      ∀ file ∈ t.filesBelow dir, f.keeps file = false := by
    simp only [List.filter_eq_nil_iff, mem_inOrder_iff, Bool.not_eq_true]
  rw [hselect, select_eq hf hdir' hlisted', ← inOrder_eq_of_perm hsame hlisted, ← hnone]
  cases dir.isUnderTools <;> cases dir'.isUnderTools
  case false.false => exact iff_of_true rfl (Or.inl rfl)
  case false.true => exact ⟨Or.inr, fun hor => hor.resolve_left Bool.false_ne_true⟩
  case true.false =>
    exact ⟨fun h => Or.inr h.symm, fun hor => (hor.resolve_left Bool.false_ne_true.symm).symm⟩
  case true.true => exact iff_of_true rfl (Or.inl rfl)

/-! ### A project at different places -/

/-- A project with two classes at a place; one of them was built. -/
def projectAt (dir : Path) : FileTree :=
  ((FileTree.empty ⟨"/", []⟩).insert (dir.join (.ofParts ["A.java"])) (.file [])).insert
    (dir.join (.ofParts ["target", "B.java"])) (.file [])

/-- The files of a language, with the default patterns. -/
def plainFilter : SourceFilter where
  extensions := [".java"]
  exclude := defaultExcludes

/-- The project has the same files in the directory of a user and in the one of a service, and the
same are selected; under a directory with builds nothing is selected. -/
theorem location_iff_places :
    let home := Path.ofString "/home/user/project"
    let service := Path.ofString "/srv/project"
    let builds := Path.ofString "/srv/rebuild/project"
    plainFilter.select home ((projectAt home).filesBelow home) =
        plainFilter.select service ((projectAt service).filesBelow service) ∧
      plainFilter.select home ((projectAt home).filesBelow home) ≠
        plainFilter.select builds ((projectAt builds).filesBelow builds) ∧
      plainFilter.select builds ((projectAt builds).filesBelow builds) = [] := by
  intro home service builds
  have hhome : (projectAt home).IsSound := by decide +kernel
  have hservice : (projectAt service).IsSound := by decide +kernel
  have hbuilds : (projectAt builds).IsSound := by decide +kernel
  have hsame : ((projectAt home).filesBelow home).Perm
      ((projectAt service).filesBelow service) := by decide +kernel
  have hsame' : ((projectAt home).filesBelow home).Perm
      ((projectAt builds).filesBelow builds) := by decide +kernel
  refine ⟨?_, fun heq => ?_, ?_⟩
  · exact (location_iff rfl hhome hservice (by decide +kernel) (by decide +kernel) hsame).2.2
      (Or.inl (by decide +kernel))
  · have hor := (location_iff rfl hhome hbuilds (by decide +kernel) (by decide +kernel) hsame').2.1
      heq
    revert hor
    decide +kernel
  · have hunder : builds.isUnderTools = true := by decide +kernel
    have hselect := (location_iff (f := plainFilter) rfl hbuilds hhome (by decide +kernel)
      (by decide +kernel) hsame'.symm).1
    rw [hselect, hunder, if_pos rfl]

/-- The selected files depend on the place of the directory. -/
theorem exists_location_dependence : ∃ (f : SourceFilter) (t t' : FileTree) (dir dir' : Path),
    f.exclude = defaultExcludes ∧ t.IsSound ∧ t'.IsSound ∧ dir.IsNormal ∧ dir'.IsNormal ∧
      (t.filesBelow dir).Perm (t'.filesBelow dir') ∧
        f.select dir (t.filesBelow dir) ≠ f.select dir' (t'.filesBelow dir') := by
  have hlisted : ∀ file ∈ [Path.ofParts ["target", "B.java"], .ofParts ["A.java"]],
      IsListed file := by
    intro file hfile
    have hall : file.IsNormal ∧ file.root = "" ∧ file.parts ≠ [] := by
      revert file
      decide +kernel
    exact ⟨hall.1, hall.2.1, hall.2.2⟩
  have hfiles : (projectAt (.ofString "/build")).filesBelow (.ofString "/build") =
      [.ofParts ["target", "B.java"], .ofParts ["A.java"]] := by decide +kernel
  have hfiles' : (projectAt (.ofString "/app")).filesBelow (.ofString "/app") =
      [.ofParts ["target", "B.java"], .ofParts ["A.java"]] := by decide +kernel
  refine ⟨plainFilter, projectAt (.ofString "/build"), projectAt (.ofString "/app"),
    .ofString "/build", .ofString "/app", rfl, by decide +kernel, by decide +kernel,
    by decide +kernel, by decide +kernel, ?_, fun heq => ?_⟩
  · rw [hfiles, hfiles']
  · have hunder : (Path.ofString "/build").isUnderTools = true := by decide +kernel
    have hunder' : (Path.ofString "/app").isUnderTools = false := by decide +kernel
    rw [hfiles, hfiles', select_eq rfl (by decide +kernel) hlisted,
      select_eq rfl (by decide +kernel) hlisted, hunder, hunder', if_pos rfl,
      if_neg Bool.false_ne_true] at heq
    have hkept := List.filter_eq_nil_iff.1 heq.symm (.ofParts ["A.java"])
      (mem_inOrder_iff.2 (by simp))
    exact hkept (by decide +kernel)

end SourceFilter

end Cohesion
