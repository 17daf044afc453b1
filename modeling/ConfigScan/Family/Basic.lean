/-
Module: ConfigScan.Family.Basic
Purpose: Document families: which files are documents of a kind and how results about them are
  located and named.
Main exports: CheckType, Family
-/
import ConfigScan.Check
import ConfigScan.Document.Source

namespace ConfigScan

/-- The kind of document that a family handles. -/
inductive CheckType where
  | githubActions
  | yaml
deriving DecidableEq, Repr, Inhabited

namespace CheckType

/-- The kind in a word. -/
def text : CheckType → String
  | .githubActions => "github_actions"
  | .yaml => "yaml"

/-- Documents of this kind define a pipeline. -/
def isPipeline : CheckType → Bool
  | .githubActions => true
  | .yaml => false

end CheckType

/-- All that a scan needs to know about one kind of document. -/
structure Family (σ : Type) where
  checkType : CheckType
  /-- The checks of the family. -/
  registry : Registry σ
  /-- Read a file; none when it is no document of this family. -/
  parseFile : Path → Option ParsedFile
  /-- The first and last line of a configuration that a check looked at. -/
  lineRange : Node → Option (Nat × Nat) := Node.lineRange?
  /-- Names of entries that a walk keeps although they are hidden. -/
  includedPaths : List String := []
  /-- The name of the resource that a result is about. -/
  resourceId : Path → String → List String → String :=
    fun path key _ => path.text ++ "." ++ key
  /-- Without external checks there is nothing to run. -/
  requiresExternalChecks : Bool := true

end ConfigScan
