/-
Audits of many sources.

Each source is audited by itself. What comes of it is a report, a failure, or nothing: a
file that was only discovered and describes no API is passed over. A batch collects the
reports and the failures in the order of the sources.
-/
import PatternAudit.Audit
import PatternAudit.Source

set_option autoImplicit false

namespace PatternAudit

/-- What came of one source. -/
inductive Attempt where
  | audited (report : Report)
  | failed (name : String) (e : Error)
  | passedOver

namespace Attempt

/-- What comes of a source under a profile, for any engines. -/
def ofSource (engines : Dialect → Engine) (p : Profile) (s : Source)
    (loaded : Except Error Description) : Attempt :=
  match loaded with
  | .ok d => audited (Report.ofDescription p d engines)
  | .error e =>
    match e with
    | .notDescription _ => if s.isDiscovered then passedOver else failed s.name e
    | _ => failed s.name e

/-- The report of an attempt. -/
def report? : Attempt → Option Report
  | audited r => some r
  | _ => none

/-- The failure of an attempt. -/
def failure? : Attempt → Option (String × Error)
  | failed name e => some (name, e)
  | _ => none

end Attempt

/-- What came of many sources. -/
structure Batch where
  reports : List Report
  failures : List (String × Error)

namespace Batch

/-- The batch of some attempts. -/
def ofAttempts (attempts : List Attempt) : Batch :=
  ⟨attempts.filterMap Attempt.report?, attempts.filterMap Attempt.failure?⟩

/-- The batch of some sources under a profile, for any engines. -/
def ofSources (engines : Dialect → Engine) (p : Profile)
    (loaded : List (Source × Except Error Description)) : Batch :=
  ofAttempts (loaded.map fun e => Attempt.ofSource engines p e.1 e.2)

/-- Whether the reports pass under the policy of a profile. -/
def passed (b : Batch) (p : Profile) : Bool := p.failOn.passes b.reports

/-- The exit code: 2 if a source failed, 1 if the policy fails the reports, else 0. -/
def exitCode (b : Batch) (p : Profile) : Nat :=
  if !b.failures.isEmpty then 2 else if b.passed p then 0 else 1

end Batch

end PatternAudit
