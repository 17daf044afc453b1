/-
Module: ConfigScan.Filter.Basic
Purpose: The filter of a scan: which checks run and which paths are left out.
Main exports: ScanFilter, ScanFilter.runs
-/

namespace ConfigScan

/-- Which checks run, and which paths a walk leaves out. -/
structure ScanFilter where
  checks : List String := []
  skipChecks : List String := []
  excludedPaths : List String := []
deriving DecidableEq, Repr, Inhabited

namespace ScanFilter

/-- One of the check's two ids is in the list. -/
def lists (ids : List String) (id : String) (legacyId : Option String) : Bool :=
  ids.any fun c => c == id || some c == legacyId

/-- The check runs: it is not skipped, and it is asked for if any check is. -/
def runs (filter : ScanFilter) (id : String) (legacyId : Option String) : Bool :=
  !lists filter.skipChecks id legacyId &&
    (filter.checks.isEmpty || lists filter.checks id legacyId)

end ScanFilter

end ConfigScan
