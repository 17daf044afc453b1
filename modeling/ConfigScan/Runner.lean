/-
Module: ConfigScan.Runner
Purpose: Running the checks of a family over files and below a directory.
Main exports: Runner, Runner.load, Runner.run
-/
import ConfigScan.LoadedFiles
import ConfigScan.PathFilter
import ConfigScan.Report

namespace ConfigScan

/-- A family with the way its files switch checks off and the way paths are shown. -/
structure Runner (σ : Type) where
  family : Family σ
  /-- The checks that the lines of a file switch off. -/
  collect : List RawLine → Suppressions := Suppressions.collect
  display : PathDisplay := .scanRoot
  /-- The globs of a filter can be put into one set. -/
  buildable : List Glob.Pattern → Bool := fun _ => true

namespace Runner

/-- What the walk below a root leaves out and keeps. -/
def pathFilter {σ : Type} (runner : Runner σ) (filter : ScanFilter) : PathFilter :=
  { excluded := filter.excludedPaths
    included := runner.family.includedPaths
    buildable := runner.buildable }

/-- Read the files given, and then those below the root. -/
def load {σ : Type} (runner : Runner σ) (fs : FileSystem) (root : Option Path)
    (files : List Path) (filter : ScanFilter) : Except ScanError LoadedFiles :=
  let given := LoadedFiles.load runner.family files
  match root with
  | none => .ok given
  | some root => do
      let found ← (runner.pathFilter filter).walk fs root
      return given.merge (LoadedFiles.load runner.family (found.map root.join))

/-- The findings about one file, in the order of the results. -/
def findingsOf {σ : Type} (runner : Runner σ) (checks : σ) (context : FindingContext σ)
    (filter : ScanFilter) (path : Path) (file : ParsedFile) : List Finding :=
  let results :=
    runner.family.registry.scan checks path file.document (runner.collect file.lines) filter
  results.filterMap fun (key, result) => context.build? path key result file.lines

/-- Run the checks. The report is empty without a root and files, and without the external checks
    that a family may need. Only a directory of checks that is refused, a root that is no directory
    and one that cannot be listed are errors. -/
def run {σ : Type} (runner : Runner σ) (fs : FileSystem) (root : Option Path)
    (external files : List Path) (filter : ScanFilter) : Except ScanError Report :=
  let empty : Report := { checkType := runner.family.checkType }
  if root.isNone && files.isEmpty then .ok empty
  else if external.isEmpty && runner.family.requiresExternalChecks then .ok empty
  else do
    let checks ← runner.family.registry.loadAll external
    let loaded ← runner.load fs root files filter
    let context : FindingContext σ :=
      { family := runner.family
        currentDir := fs.currentDir
        root
        display := runner.display
        pipeline := loaded.pipeline }
    return { empty with
      findings := loaded.files.flatMap fun (path, file) =>
        runner.findingsOf checks context filter path file }

end Runner

end ConfigScan
