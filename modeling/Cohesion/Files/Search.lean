/-
Finding source files.

Of the files under a directory, those with one of the wanted extensions are source files.  They can
be excluded by patterns, and a focus of patterns can leave out all others.

Main definitions:
* `defaultExcludes` — what is always excluded;
* `SourceFilter` — extensions, exclusions and focus;
* `SourceFilter.select` — the source files among given files, in the order of their paths.
-/
import Cohesion.Files.Glob
import Cohesion.Files.Tree

set_option autoImplicit false

namespace Cohesion

/-- The patterns that are always excluded: the directories of tools and of built files. -/
def defaultExcludes : List String :=
  ["*.git/*", "*node_modules/*", "*build/*", "*target/*", "*.gradle/*", "*.idea/*"]

/-- What makes a file a source file. -/
structure SourceFilter where
  /-- The extensions, one of which it has. -/
  extensions : List String
  /-- The patterns of which it matches none. -/
  exclude : List String := []
  /-- The patterns of which it matches one, if there are any. -/
  focus : List String := []
  deriving Repr

namespace SourceFilter

/-- One of the patterns matches one of the texts. -/
def anyAccepts (patterns texts : List String) : Bool :=
  patterns.any fun pattern => texts.any (Glob.ofString pattern).accepts

/-- The file has one of the extensions, in any case. -/
def hasExtension (f : SourceFilter) (file : Path) : Bool := f.extensions.contains file.lowerSuffix

/-- A file is excluded by its path seen from the directory, or by its path with the directory. -/
def excludes (f : SourceFilter) (dir file : Path) : Bool :=
  anyAccepts f.exclude [file.toString, (dir.join file).toString]

/-- A file is in focus by its path seen from the directory, or by its name. -/
def focuses (f : SourceFilter) (file : Path) : Bool :=
  f.focus.isEmpty || anyAccepts f.focus [file.toString, file.name]

/-- A file is a source file. -/
def accepts (f : SourceFilter) (dir file : Path) : Bool :=
  f.hasExtension file && !f.excludes dir file && f.focuses file

/-- Paths in their order. -/
def inOrder (files : List Path) : List Path := files.mergeSort fun p q => !q.before p

/-- The source files among the files under a directory. -/
def select (f : SourceFilter) (dir : Path) (files : List Path) : List Path :=
  (inOrder files).filter (f.accepts dir)

end SourceFilter

end Cohesion
