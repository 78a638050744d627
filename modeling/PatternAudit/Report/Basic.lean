/-
The report of one audit.
-/
import PatternAudit.Report.Summary

set_option autoImplicit false

namespace PatternAudit

/-- A place that the walk could not enter, and why. -/
structure Diagnostic where
  location : String
  reason : String
  deriving DecidableEq, Inhabited

/-- What an audit found in one description. -/
structure Report where
  /-- the name of the description -/
  document : String
  /-- the version that the description declares -/
  specVersion : Option String
  dialects : List Dialect
  groups : List Group
  summary : Summary
  skipped : List Diagnostic
  deriving DecidableEq, Inhabited

namespace Report

/-- Whether a group has an error. -/
def hasErrors (r : Report) : Bool := 0 < r.summary.withError

/-- Whether there is a warning. -/
def hasWarnings (r : Report) : Bool := 0 < r.summary.warningCount

end Report

end PatternAudit
