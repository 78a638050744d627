/-
Findings: what an audit has to say about one place.

A finding comes from one dialect or from the quality checks, breaks a rule (or,
for an accepted pattern, keeps one), and has a severity. Its constructors fix
what goes together: an accepted pattern has no advice, an error means that the
pattern cannot be relied on to compile, a warning that it can.
-/
import PatternAudit.Dialect

set_option autoImplicit false

namespace PatternAudit

/-! ## Severities, rules, origins -/

/-- How much a finding matters. -/
inductive Severity where
  | valid
  | warning
  | error
  deriving DecidableEq, Inhabited

namespace Severity

/-- The severities, in ascending order. -/
def all : List Severity := [valid, warning, error]

/-- The name of a severity. -/
def name : Severity → String
  | valid => "valid"
  | warning => "warning"
  | error => "error"

/-- The severity of a name, without regard to case. -/
def ofName? (s : String) : Option Severity :=
  match Text.lower s with
  | "valid" => some valid
  | "warning" => some warning
  | "error" => some error
  | _ => none

/-- The complaint about a name that belongs to no severity. -/
def unknownName (s : String) : String := "unknown severity: " ++ s

end Severity

/-- What a finding is about. -/
inductive Rule where
  | dialectSyntax
  | dialectFault
  | overlyPermissive
  | missingAnchors
  | backtrackingRisk
  | missingOperationId
  | missingSummary
  | missingSchemaDescription
  | missingSchemaExample
  | pathNaming
  deriving DecidableEq, Inhabited

namespace Rule

/-- The rules, in the order in which they are declared. -/
def all : List Rule :=
  [dialectSyntax, dialectFault, overlyPermissive, missingAnchors, backtrackingRisk,
    missingOperationId, missingSummary, missingSchemaDescription, missingSchemaExample, pathNaming]

/-- The name of a rule. -/
def name : Rule → String
  | dialectSyntax => "dialect_syntax"
  | dialectFault => "dialect_fault"
  | overlyPermissive => "overly_permissive"
  | missingAnchors => "missing_anchors"
  | backtrackingRisk => "backtracking_risk"
  | missingOperationId => "missing_operation_id"
  | missingSummary => "missing_summary"
  | missingSchemaDescription => "missing_schema_description"
  | missingSchemaExample => "missing_schema_example"
  | pathNaming => "path_naming"

/-- The rule of a name. -/
def ofName? : String → Option Rule
  | "dialect_syntax" => some dialectSyntax
  | "dialect_fault" => some dialectFault
  | "overly_permissive" => some overlyPermissive
  | "missing_anchors" => some missingAnchors
  | "backtracking_risk" => some backtrackingRisk
  | "missing_operation_id" => some missingOperationId
  | "missing_summary" => some missingSummary
  | "missing_schema_description" => some missingSchemaDescription
  | "missing_schema_example" => some missingSchemaExample
  | "path_naming" => some pathNaming
  | _ => none

end Rule

/-- What produced a finding. -/
inductive Origin where
  | dialect (d : Dialect)
  | quality
  deriving DecidableEq, Inhabited

namespace Origin

/-- The name of an origin. -/
def name : Origin → String
  | dialect d => d.displayName
  | quality => "Quality Check"

/-- The origins. -/
def all : List Origin := quality :: Dialect.all.map dialect

/-- The origin of a name. -/
def ofName? (s : String) : Option Origin := all.find? fun o => o.name == s

/-- The complaint about a name that belongs to no origin. -/
def unknownName (s : String) : String := "unknown finding source: " ++ s

end Origin

/-! ## Findings -/

/-- What stands for the pattern of a finding that is about no pattern. -/
def notApplicable : String := "N/A"

/-- One outcome for one place under one dialect or check. -/
structure Finding where
  location : String
  /-- the line in the source text, counted from one; 0 when it is not known -/
  line : Nat
  pattern : String
  origin : Origin
  rule : Rule
  severity : Severity
  /-- whether the pattern compiles, as far as this finding can tell -/
  compiles : Bool
  message : String
  suggestion : Option String
  suggestedFix : Option String
  deriving DecidableEq, Inhabited

namespace Finding

/-- A pattern that a dialect accepts. -/
def valid (location pattern : String) (d : Dialect) : Finding where
  location
  line := 0
  pattern
  origin := .dialect d
  rule := .dialectSyntax
  severity := .valid
  compiles := true
  message := "pattern accepted by " ++ d.displayName
  suggestion := none
  suggestedFix := none

/-- A pattern that a dialect refuses, or could not check. -/
def error (location pattern : String) (d : Dialect) (rule : Rule) (message suggestion : String)
    (suggestedFix : Option String) : Finding where
  location
  line := 0
  pattern
  origin := .dialect d
  rule
  severity := .error
  compiles := false
  message
  suggestion := some suggestion
  suggestedFix

/-- A weakness that the quality or metadata checks report. -/
def warning (location pattern : String) (rule : Rule) (message suggestion : String)
    (suggestedFix : Option String) : Finding where
  location
  line := 0
  pattern
  origin := .quality
  rule
  severity := .warning
  compiles := true
  message
  suggestion := some suggestion
  suggestedFix

/-- The finding with its line. -/
def atLine (f : Finding) (line : Nat) : Finding := { f with line }

/-- The dialect that produced the finding, if one did. -/
def dialect? (f : Finding) : Option Dialect :=
  match f.origin with
  | .dialect d => some d
  | .quality => none

end Finding

end PatternAudit
