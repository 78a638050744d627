/-
The figures of a report, counted from its groups.

A group with an error counts as one with an error, whatever else it holds; one
with warnings only, as such; the others are clean. Errors are counted by
dialect and warnings by message, with the names in ascending order.
-/
import PatternAudit.Report.Group

set_option autoImplicit false

namespace PatternAudit

/-! ## Tallies -/

/-- Counts under names, in ascending order of the names. -/
abbrev Tally := List (String × Nat)

namespace Tally

/-- Counts a name once more. -/
def add (name : String) : Tally → Tally
  | [] => [(name, 1)]
  | (k, n) :: rest =>
    if k = name then (k, n + 1) :: rest
    else if name < k then (name, 1) :: (k, n) :: rest
    else (k, n) :: add name rest

/-- Enters a count under a name, in place of the one that is there. -/
def put (name : String) (count : Nat) : Tally → Tally
  | [] => [(name, count)]
  | (k, n) :: rest =>
    if k = name then (k, count) :: rest
    else if name < k then (name, count) :: (k, n) :: rest
    else (k, n) :: put name count rest

/-- The counts of pairs that may stand in any order. -/
def ofPairs (pairs : List (String × Nat)) : Tally := pairs.foldl (fun t p => t.put p.1 p.2) []

/-- The sum of the counts. -/
def total (t : Tally) : Nat := t.foldl (fun n e => n + e.2) 0

/-- Counts names. -/
def ofNames (names : List String) : Tally := names.foldl (fun t n => t.add n) []

end Tally

/-! ## Summaries -/

/-- The figures of a report. -/
structure Summary where
  locations : Nat
  clean : Nat
  withError : Nat
  /-- groups with warnings and no errors -/
  warningOnly : Nat
  errorsByDialect : Tally
  warningsByMessage : Tally
  deriving DecidableEq, Inhabited

namespace Summary

/-- The name that an error is counted under. -/
def errorName? (f : Finding) : Option String :=
  if f.severity = .error then f.dialect?.map Dialect.displayName else none

/-- The name that a warning is counted under. -/
def warningName? (f : Finding) : Option String :=
  if f.severity = .warning then some f.message else none

/-- The figures of groups. -/
def ofGroups (gs : List Group) : Summary :=
  let findings := gs.flatMap (·.findings)
  { locations := gs.length
    clean := gs.countP (·.isClean)
    withError := gs.countP (·.hasError)
    warningOnly := gs.countP fun g => !g.hasError && g.hasWarning
    errorsByDialect := Tally.ofNames (findings.filterMap errorName?)
    warningsByMessage := Tally.ofNames (findings.filterMap warningName?) }

/-- The number of errors. -/
def errorCount (s : Summary) : Nat := s.errorsByDialect.total

/-- The number of warnings. -/
def warningCount (s : Summary) : Nat := s.warningsByMessage.total

end Summary

end PatternAudit
