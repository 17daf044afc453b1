/-
Module: ConfigScan.Check
Purpose: Checks, the results they give, and registries of checks.
Main exports: Severity, Outcome, Check, RawResult, Registry
-/
import ConfigScan.Document.Basic
import ConfigScan.Error
import ConfigScan.Filter.Basic
import ConfigScan.Suppression

namespace ConfigScan

/-- How grave a failed check is. -/
inductive Severity where
  | critical
  | high
  | medium
  | low
  | info
deriving DecidableEq, Repr, Inhabited

/-- The outcome of one check on one resource. -/
inductive Outcome where
  | passed
  | failed
  | skipped (comment : Option String)
deriving DecidableEq, Repr, Inhabited

/-- The outcome in a word. -/
def Outcome.text : Outcome → String
  | .passed => "PASSED"
  | .failed => "FAILED"
  | .skipped _ => "SKIPPED"

/-- The identity of a check. -/
structure Check where
  id : String
  legacyId : Option String := none
  name : String
  severity : Option Severity := none
  entities : List String := []
  className : String := ""
deriving DecidableEq, Repr, Inhabited

/-- What a registry reports: a check, what it looked at, and the outcome. -/
structure RawResult where
  check : Option Check
  configuration : Option Node := none
  outcome : Outcome
  evaluatedKeys : List String := []
deriving Repr, Inhabited

/-- A set of checks. Its state `σ` grows by the directories of external checks that it takes in. -/
structure Registry (σ : Type) where
  /-- The state before any external checks. -/
  initial : σ
  /-- Take in the external checks of a directory, or refuse it. -/
  load : σ → Path → Except ScanError σ
  /-- Run the checks on one document. Each result has a key that names what it is about. -/
  scan : σ → Path → Node → Suppressions → ScanFilter → List (String × RawResult)

namespace Registry

/-- Take in directories one after another; the first refusal ends it. -/
def loadAll {σ : Type} (registry : Registry σ) (directories : List Path) : Except ScanError σ :=
  directories.foldlM registry.load registry.initial

end Registry

end ConfigScan
