/-
The elements of an API description that people read, and the checks on them.
-/
import PatternAudit.Api.Naming
import PatternAudit.Checks
import PatternAudit.Finding

set_option autoImplicit false

namespace PatternAudit.Api

/-! ## Elements -/

/-- An operation: a method on a path. -/
structure Operation where
  location : String
  path : String
  method : String
  operationId : Option String
  summary : Option String
  deriving DecidableEq, Inhabited

/-- A schema that the description names. -/
structure Schema where
  location : String
  name : String
  description : Option String
  hasExample : Bool
  deriving DecidableEq, Inhabited

/-- A path template. -/
structure PathEntry where
  location : String
  template : String
  deriving DecidableEq, Inhabited

/-! ## Checks -/

/-- A finding, if a check is on and its condition is met. -/
def findingIf (condition : Bool) (f : Finding) : List Finding := if condition then [f] else []

/-- Checks that an operation has an id and a summary. -/
def checkOperation (o : Operation) (checks : Checks) : List Finding :=
  findingIf (checks.operationId && o.operationId.isNone)
    (.warning o.location notApplicable .missingOperationId "missing operationId"
      "Each operation should have a unique 'operationId' for code generation and tooling." none)
  ++ findingIf (checks.summary && o.summary.isNone)
    (.warning o.location notApplicable .missingSummary "missing summary"
      "A summary provides a quick, human-readable overview of the operation's purpose." none)

/-- Checks that a schema has a description and an example. -/
def checkSchema (s : Schema) (checks : Checks) : List Finding :=
  findingIf (checks.schemaDescription && s.description.isNone)
    (.warning s.location s.name .missingSchemaDescription "missing schema description"
      "A description clarifies the purpose and structure of the schema." none)
  ++ findingIf (checks.schemaExample && !s.hasExample)
    (.warning s.location s.name .missingSchemaExample "missing schema example"
      "Providing an example value helps developers understand the expected data format." none)

/-- Checks how a path is spelled. -/
def checkPath (p : PathEntry) (checks : Checks) : List Finding :=
  findingIf (checks.pathNaming && hasCapitalSegment p.template)
    (.warning p.location p.template .pathNaming "path naming convention"
      "Path segments should ideally use kebab-case (e.g., /user-profiles) or snake_case, not camelCase, for better readability."
      (some (kebabCase p.template)))

end PatternAudit.Api
