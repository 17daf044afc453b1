/-
Module: ConfigScan.LoadedFiles
Purpose: The files that were read for a run, in path order, and the pipeline they define.
Main exports: LoadedFiles, LoadedFiles.put, LoadedFiles.load, LoadedFiles.merge
-/
import ConfigScan.Family.Basic
import ConfigScan.Pipeline

namespace ConfigScan

/-- Files by path, in path order and each path once, and the pipeline of the first document among
    them. -/
structure LoadedFiles where
  files : List (Path × ParsedFile) := []
  pipeline : Option Pipeline := none
deriving Repr, Inhabited

namespace LoadedFiles

/-- Put a file at its place. Under a path that is there already the file is replaced, and the
    spelling of the path stays. -/
def put (path : Path) (file : ParsedFile) : List (Path × ParsedFile) → List (Path × ParsedFile)
  | [] => [(path, file)]
  | (other, old) :: rest =>
      if path.lt other then (path, file) :: (other, old) :: rest
      else if other.lt path then (other, old) :: put path file rest
      else (other, file) :: rest

/-- Put files at their places, one after another. -/
def putAll (start files : List (Path × ParsedFile)) : List (Path × ParsedFile) :=
  files.foldl (fun all entry => put entry.1 entry.2 all) start

/-- Read files of a family. Those that are no documents of it are left out. The first document of
    a pipeline family, in the order of the paths given, says what the pipeline is. -/
def load {σ : Type} (family : Family σ) (paths : List Path) : LoadedFiles :=
  let parsed := paths.filterMap fun path => (family.parseFile path).map (path, ·)
  { files := putAll [] parsed
    pipeline :=
      if family.checkType.isPipeline then
        parsed.head?.map fun entry => Pipeline.ofDocument entry.2.document
      else none }

/-- The files of both; the later ones count where they have paths in common. -/
def merge (first later : LoadedFiles) : LoadedFiles :=
  { files := putAll first.files later.files
    pipeline := later.pipeline <|> first.pipeline }

end LoadedFiles

end ConfigScan
