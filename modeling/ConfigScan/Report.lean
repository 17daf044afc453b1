/-
Module: ConfigScan.Report
Purpose: Reports: the findings of one run in order, their counts, and shortened paths.
Main exports: Report, Report.add, Report.summary, Report.stripPrefix
-/
import ConfigScan.Finding

namespace ConfigScan

/-- The findings of one run. -/
structure Report where
  checkType : CheckType
  findings : List Finding := []
deriving DecidableEq, Repr, Inhabited

/-- How many findings have which outcome. -/
structure Summary where
  passed : Nat
  failed : Nat
  skipped : Nat
deriving DecidableEq, Repr, Inhabited

namespace Finding

/-- The check passed. -/
def isPassed (f : Finding) : Bool := f.outcome == .passed

/-- The check failed. -/
def isFailed (f : Finding) : Bool := f.outcome == .failed

/-- The check was skipped. -/
def isSkipped (f : Finding) : Bool :=
  match f.outcome with
  | .skipped _ => true
  | _ => false

end Finding

namespace Report

/-- The report with one more finding at its end. -/
def add (report : Report) (finding : Finding) : Report :=
  { report with findings := report.findings ++ [finding] }

/-- The findings of passed checks, in order. -/
def passed (report : Report) : List Finding := report.findings.filter Finding.isPassed

/-- The findings of failed checks, in order. -/
def failed (report : Report) : List Finding := report.findings.filter Finding.isFailed

/-- The findings of skipped checks, in order. -/
def skipped (report : Report) : List Finding := report.findings.filter Finding.isSkipped

/-- The count of findings by outcome. -/
def summary (report : Report) : Summary :=
  { passed := report.findings.countP Finding.isPassed
    failed := report.findings.countP Finding.isFailed
    skipped := report.findings.countP Finding.isSkipped }

/-- A text without the given beginning; any other text stays as it is. -/
def withoutStart (start text : String) : String :=
  if start.toList.isPrefixOf text.toList then String.ofList (text.toList.drop start.toList.length)
  else text

/-- Take `start` away from the front of every shown path and every resource that begins with it. -/
def stripPrefix (report : Report) (start : String) : Report :=
  { report with
    findings := report.findings.map fun f =>
      { f with filePath := withoutStart start f.filePath
               resource := withoutStart start f.resource } }

end Report

end ConfigScan
