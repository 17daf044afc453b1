/-
Module: ConfigScan.Finding
Purpose: Findings: results of checks, located in their file.
Main exports: Finding, FindingContext, FindingContext.build?
-/
import ConfigScan.Family.Basic
import ConfigScan.Path.Display
import ConfigScan.Pipeline

namespace ConfigScan

/-- The located result of one check. -/
structure Finding where
  checkId : String
  legacyId : Option String
  checkName : String
  outcome : Outcome
  evaluatedKeys : List String
  /-- The source lines of the finding with one line of context on each side. -/
  codeBlock : List RawLine
  /-- The path as it is shown, with a leading slash. -/
  filePath : String
  /-- The first line, and the line after the last. -/
  lineRange : Nat × Nat
  resource : String
  className : String
  absolutePath : Path
  severity : Option Severity
  /-- The pipeline of the run, for pipeline documents only. -/
  pipeline : Option Pipeline
deriving DecidableEq, Repr, Inhabited

/-- What is the same for all findings of one run. -/
structure FindingContext (σ : Type) where
  family : Family σ
  currentDir : Path
  root : Option Path
  display : PathDisplay
  pipeline : Option Pipeline

namespace FindingContext

/-- The lines of a result: those of its configuration, or `(0, 0)` when it has none that are
    usable. -/
def location {σ : Type} (context : FindingContext σ) (result : RawResult) : Nat × Nat :=
  (result.configuration.bind context.family.lineRange).getD (0, 0)

/-- The finding for a result of a check on a file. A result without a check, or with one that has
    an empty id, gives none. -/
def build? {σ : Type} (context : FindingContext σ) (path : Path) (key : String)
    (result : RawResult) (lines : List RawLine) : Option Finding :=
  match result.check with
  | none => none
  | some check =>
      if check.id = "" then none
      else
        let (first, last) := context.location result
        some
          { checkId := check.id
            legacyId := check.legacyId
            checkName := check.name
            outcome := result.outcome
            evaluatedKeys := result.evaluatedKeys
            codeBlock := RawLine.snippet lines first last
            filePath := context.display.render context.currentDir path context.root
            lineRange := (first, last + 1)
            resource := context.family.resourceId path key check.entities
            className := check.className
            absolutePath := Path.absolute context.currentDir path
            severity := check.severity
            pipeline :=
              if context.family.checkType.isPipeline then some (context.pipeline.getD {})
              else none }

end FindingContext

end ConfigScan
