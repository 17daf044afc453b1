/-
Module: ConfigScan.Family.GithubActions
Purpose: The family of GitHub Actions workflows.
Main exports: Path.isWorkflow, ParsedFile.hasJobs, Family.githubActions
-/
import ConfigScan.Family.Yaml

namespace ConfigScan

/-- The directory that workflows are kept in. -/
def workflowDirectory : Path := ⟨".github/workflows"⟩

/-- A YAML file directly in a directory of workflows. -/
def Path.isWorkflow (path : Path) : Bool :=
  path.isYaml && path.parent?.any fun dir => dir.endsWith workflowDirectory

/-- The document has the key `jobs` at its top. -/
def ParsedFile.hasJobs (file : ParsedFile) : Bool := (file.document.get? "jobs").isSome

/-- Workflows: files at the right place whose documents have jobs. A result is about the resource
    that its key names. The family has checks of its own, so it runs without external ones. -/
def Family.githubActions {σ : Type} (registry : Registry σ) (fs : FileSystem) : Family σ :=
  { checkType := .githubActions
    registry
    parseFile := fun path =>
      if path.isWorkflow then (fs.readYaml? path).filter ParsedFile.hasJobs else none
    includedPaths := [".github"]
    resourceId := fun _ key _ => key
    requiresExternalChecks := false }

end ConfigScan
