/-
Module: ConfigScan.PathFilter
Purpose: Which entries of a directory tree a scan looks at, and the walk that finds its files.
Main exports: PathFilter, PathFilter.ignores, PathFilter.keep, PathFilter.walk
-/
import ConfigScan.FileTree.Basic
import ConfigScan.Glob.Match

namespace ConfigScan

/-- Exclusion patterns, and the hidden names that are looked at all the same. -/
structure PathFilter where
  excluded : List String := []
  included : List String := []
  /-- The globs can be put into one set. A set that grows too large is not built. -/
  buildable : List Glob.Pattern → Bool := fun _ => true
deriving Inhabited

namespace PathFilter

/-- Names of directories that are never entered. -/
def ignoredNames : List String := ["node_modules", ".terraform", ".serverless"]

/-- The name starts with a dot. -/
def isHidden (name : String) : Bool := name.toList.head? == some '.'

/-- The text occurs in another one. -/
def occursIn (part : List Char) : List Char → Bool
  | [] => part.isEmpty
  | c :: rest => part.isPrefixOf (c :: rest) || occursIn part rest

/-- The exclusion patterns that are globs. Where their set cannot be built, none of them counts. -/
def globs (filter : PathFilter) : List Glob.Pattern :=
  let all := filter.excluded.filterMap Glob.read?
  if filter.buildable all then all else []

/-- The exclusion patterns rule the path out: it fits one of the globs, or one of the patterns, be
    it a glob or not, is a part of its text. -/
def excludes (filter : PathFilter) (path : Path) : Bool :=
  (filter.globs.any fun glob => glob.fits path) ||
    filter.excluded.any fun pattern => occursIn pattern.toList path.text.toList

/-- The entry of this name in a directory is left out: it is hidden and not asked for, it is never
    entered, or the patterns rule it out. -/
def ignores (filter : PathFilter) (directory : Path) (name : String) : Bool :=
  (isHidden name && !filter.included.contains name) || ignoredNames.contains name ||
    filter.excludes (directory.join ⟨name⟩)

/-- The names of a directory's entries that are not left out. -/
def keep (filter : PathFilter) (directory : Path) (names : List String) : List String :=
  names.filter fun name => !filter.ignores directory name

mutual

/-- The files in an entry at a path, given by the names that lead to them from there. Links are
    neither files nor entered. A directory is passed over when it cannot be opened: its path is too
    long, it cannot be listed, or the directory that it is in cannot be searched. -/
def filesOf (filter : PathFilter) (path : Path) (reached : Bool) : Entry → List (List Name)
  | .file .. => [[]]
  | .link _ => []
  | .dir access children =>
      if reached && access.list && path.bytes.length ≤ FileSystem.maxPathBytes then
        filesIn filter path access.search children
      else []

/-- The files in the children of the directory at a path, which may be one that cannot be
    searched. -/
def filesIn (filter : PathFilter) (path : Path) (searched : Bool) :
    List (Name × Entry) → List (List Name)
  | [] => []
  | (name, entry) :: rest =>
      let child := path.join ⟨name⟩
      (if filter.ignores (child.parent?.getD path) (Text.Utf8.text name) then []
        else (filesOf filter child searched entry).map (name :: ·)) ++
        filesIn filter path searched rest

end

/-- The path that names spell from a directory on. -/
def relativePath (names : List Name) : Path := ⟨Path.unsegments names⟩

/-- The files below a root, in path order and relative to it. The root itself may be a link and may
    have any name; it only has to be a directory that can be listed. -/
def walk (filter : PathFilter) (fs : FileSystem) (root : Path) :
    Except ScanError (List Path) :=
  if fs.isDirectory root then
    match fs.openDirectory root with
    | .ok directory =>
        .ok (((filesOf filter root true directory).map relativePath).mergeSort fun p q =>
          !q.lt p)
    | .error cause => .error (.walk root cause)
  else .error (.rootNotFound root)

end PathFilter

end ConfigScan
