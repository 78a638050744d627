/-
Reports as a log of the Static Analysis Results Interchange Format.

The log has one result for every finding that is an error or a warning, in the order
of reports, groups and findings, and declares the rules that its results name, in
ascending order of their ids. Files are named with slashes, and a finding without a
line is put on the first.
-/
import PatternAudit.Report.Listing

set_option autoImplicit false

namespace PatternAudit

/-! ## Rules -/

/-- What a log says of a rule. -/
structure Rule.Info where
  name : String
  short : String
  full : String
  level : Severity

namespace Rule

/-- What logs say of the rules. -/
def info : Rule → Info
  | dialectSyntax => {
      name := "DialectSyntax"
      short := "Pattern does not compile under a target regex dialect"
      full := "The pattern is rejected by the parser of one of the selected regex dialects (PCRE, ECMAScript or RE2), so validators built on that engine will fail on it."
      level := .error }
  | dialectFault => {
      name := "DialectFault"
      short := "A dialect check could not complete"
      full := "The syntax check for this dialect timed out or failed internally. The pattern was not verified for that dialect."
      level := .error }
  | overlyPermissive => {
      name := "OverlyPermissive"
      short := "Pattern accepts any input"
      full := "Patterns such as '.*' and '.+' constrain nothing and usually indicate a placeholder."
      level := .warning }
  | missingAnchors => {
      name := "MissingAnchors"
      short := "Pattern is not anchored with ^ and $"
      full := "JSON Schema patterns match anywhere in the value unless anchored, so an unanchored pattern may accept invalid strings that merely contain a valid substring."
      level := .warning }
  | backtrackingRisk => {
      name := "BacktrackingRisk"
      short := "Nested quantifiers may cause catastrophic backtracking"
      full := "A repeated group that itself contains a quantifier, such as (a+)+, can take exponential time on backtracking engines for some inputs."
      level := .warning }
  | missingOperationId => {
      name := "MissingOperationId"
      short := "Operation has no operationId"
      full := "Operations without an operationId get unstable generated names in client SDKs and tooling."
      level := .warning }
  | missingSummary => {
      name := "MissingSummary"
      short := "Operation has no summary"
      full := "A summary gives readers a one-line overview of what the operation does."
      level := .warning }
  | missingSchemaDescription => {
      name := "MissingSchemaDescription"
      short := "Component schema has no description"
      full := "A description clarifies the purpose and structure of a shared schema."
      level := .warning }
  | missingSchemaExample => {
      name := "MissingSchemaExample"
      short := "Component schema has no example"
      full := "An example value shows developers the expected data format."
      level := .warning }
  | pathNaming => {
      name := "PathNaming"
      short := "Path template uses upper-case letters"
      full := "Path segments should use kebab-case or snake_case rather than camelCase."
      level := .warning }

end Rule

/-! ## Logs -/

namespace Sarif

/-- A rule that a log declares. -/
structure RuleEntry where
  id : String
  name : String
  short : String
  full : Option String
  level : String
  deriving DecidableEq, Inhabited

/-- Where a result belongs: a line of a file, and the nodes of the description. -/
structure Location where
  uri : String
  startLine : Nat
  nodes : List String
  deriving DecidableEq, Inhabited

/-- A result. -/
structure Result where
  ruleId : String
  level : String
  message : String
  locations : List Location
  deriving DecidableEq, Inhabited

/-- A run of a tool. -/
structure Run where
  tool : String
  toolVersion : String
  informationUri : String
  rules : List RuleEntry
  results : List Result
  deriving DecidableEq, Inhabited

/-- A log. -/
structure Log where
  version : String
  schema : String
  runs : List Run
  deriving DecidableEq, Inhabited

/-- The version of the format. -/
def formatVersion : String := "2.1.0"

/-- Where the format is defined. -/
def schemaUri : String :=
  "https://raw.githubusercontent.com/oasis-tcs/sarif-spec/master/Schemata/sarif-schema-2.1.0.json"

/-- Where the tool is described. -/
def informationUri : String := "https://github.com/oasregex/oasregex"

/-! ## From reports -/

/-- The level of a severity. -/
def level : Severity → String
  | .error => "error"
  | .warning => "warning"
  | .valid => "none"

/-- The name of a file with slashes. -/
def uri (document : String) : String :=
  String.ofList (document.toList.map fun c => if c = '\\' then '/' else c)

/-- The text of a result. -/
def message (f : Finding) : String :=
  "[" ++ f.origin.name ++ "] " ++ f.message ++ " (pattern: " ++ f.pattern ++ ")"

/-- The line of a result. -/
def startLine (f : Finding) : Nat := if 0 < f.line then f.line else 1

/-- The findings of a report that a log has results for. -/
def issues (r : Report) : List Finding :=
  (r.groups.flatMap (·.findings)).filter fun f => f.severity ≠ .valid

/-- The result for a finding on a document. -/
def Result.ofFinding (document : String) (f : Finding) : Result where
  ruleId := f.rule.name
  level := Sarif.level f.severity
  message := Sarif.message f
  locations := [⟨uri document, startLine f, [f.location]⟩]

/-- The results for a report. -/
def results (r : Report) : List Result := (issues r).map (Result.ofFinding r.document)

/-- The declaration of a rule. -/
def RuleEntry.ofRule (rule : Rule) : RuleEntry :=
  ⟨rule.name, rule.info.name, rule.info.short, some rule.info.full, rule.info.level.name⟩

/-- The ids of the rules that reports need declared, each once and in ascending order. -/
def ruleIds (reports : List Report) : List String :=
  ((reports.flatMap issues).map (·.rule.name)).eraseDups.mergeSort fun a b => a ≤ b

/-- The rules that reports need declared. The ids are read back as rules, and one that
names no rule would be left out. -/
def rules (reports : List Report) : List Rule := (ruleIds reports).filterMap Rule.ofName?

/-- The log of reports. -/
def Log.ofReports (reports : List Report) : Log where
  version := formatVersion
  schema := schemaUri
  runs := [{
    tool := toolName
    toolVersion := PatternAudit.toolVersion
    informationUri := Sarif.informationUri
    rules := (rules reports).map RuleEntry.ofRule
    results := reports.flatMap results }]

/-! ## The written form -/

/-- A text in its wrapping. -/
def messageJson (s : String) : Json := .obj [("text", .str s)]

/-- The form of a text in its wrapping. -/
def messageShape : Shape := .record "SarifMessage" [("text", .required, .string)]

/-- The text of a member. -/
def messageAt (key : String) (v : Json) : String := (((v.get? key).getD .null).textAt "text")

/-- The tree of a rule. -/
def RuleEntry.toJson (r : RuleEntry) : Json :=
  .obj <|
    [("id", .str r.id), ("name", .str r.name), ("shortDescription", messageJson r.short)]
    ++ (match r.full with
      | some s => [("fullDescription", messageJson s)]
      | none => [])
    ++ [("defaultConfiguration", .obj [("level", .str r.level)])]

/-- The form of a rule. -/
def RuleEntry.shape : Shape :=
  .record "SarifRule"
    [("id", .required, .string), ("name", .required, .string),
      ("shortDescription", .required, messageShape),
      ("fullDescription", .optional, .nullable messageShape),
      ("defaultConfiguration", .required, .record "SarifRuleConfig" [("level", .required, .string)])]

/-- The rule of a fitted tree. -/
def RuleEntry.ofJson (v : Json) : RuleEntry where
  id := v.textAt "id"
  name := v.textAt "name"
  short := messageAt "shortDescription" v
  full := (v.get? "fullDescription").bind (·.text?At "text")
  level := ((v.get? "defaultConfiguration").getD .null).textAt "level"

/-- The tree of a location. -/
def Location.toJson (l : Location) : Json :=
  .obj [("physicalLocation", .obj [("artifactLocation", .obj [("uri", .str l.uri)]),
      ("region", .obj [("startLine", .ofNat l.startLine)])]),
    ("logicalLocations", .arr (l.nodes.map fun n => .obj [("fullyQualifiedName", .str n)]))]

/-- The form of a location. -/
def Location.shape : Shape :=
  .record "SarifLocation"
    [("physicalLocation", .required, .record "SarifPhysicalLocation"
        [("artifactLocation", .required, .record "SarifArtifact" [("uri", .required, .string)]),
          ("region", .required, .record "SarifRegion" [("startLine", .required, .count)])]),
      ("logicalLocations", .required, .sequence
        (.record "SarifLogicalLocation" [("fullyQualifiedName", .required, .string)]))]

/-- The location of a fitted tree. -/
def Location.ofJson (v : Json) : Location :=
  let physical := (v.get? "physicalLocation").getD .null
  { uri := ((physical.get? "artifactLocation").getD .null).textAt "uri"
    startLine := ((physical.get? "region").getD .null).naturalAt "startLine"
    nodes := (v.itemsAt "logicalLocations").map (·.textAt "fullyQualifiedName") }

/-- The tree of a result. -/
def Result.toJson (r : Result) : Json :=
  .obj [("ruleId", .str r.ruleId), ("level", .str r.level), ("message", messageJson r.message),
    ("locations", .arr (r.locations.map Location.toJson))]

/-- The form of a result. -/
def Result.shape : Shape :=
  .record "SarifResult"
    [("ruleId", .required, .string), ("level", .required, .string),
      ("message", .required, messageShape), ("locations", .required, .sequence Location.shape)]

/-- The result of a fitted tree. -/
def Result.ofJson (v : Json) : Result :=
  ⟨v.textAt "ruleId", v.textAt "level", messageAt "message" v,
    (v.itemsAt "locations").map Location.ofJson⟩

/-- The tree of a run. -/
def Run.toJson (r : Run) : Json :=
  .obj [("tool", .obj [("driver", .obj [("name", .str r.tool), ("version", .str r.toolVersion),
      ("informationUri", .str r.informationUri), ("rules", .arr (r.rules.map RuleEntry.toJson))])]),
    ("results", .arr (r.results.map Result.toJson))]

/-- The form of a run. -/
def Run.shape : Shape :=
  .record "SarifRun"
    [("tool", .required, .record "SarifTool"
        [("driver", .required, .record "SarifDriver"
          [("name", .required, .string), ("version", .required, .string),
            ("informationUri", .required, .string),
            ("rules", .required, .sequence RuleEntry.shape)])]),
      ("results", .required, .sequence Result.shape)]

/-- The run of a fitted tree. -/
def Run.ofJson (v : Json) : Run :=
  let driver := (((v.get? "tool").getD .null).get? "driver").getD .null
  { tool := driver.textAt "name"
    toolVersion := driver.textAt "version"
    informationUri := driver.textAt "informationUri"
    rules := (driver.itemsAt "rules").map RuleEntry.ofJson
    results := (v.itemsAt "results").map Result.ofJson }

/-- The tree of a log. -/
def Log.toJson (l : Log) : Json :=
  .obj [("version", .str l.version), ("$schema", .str l.schema),
    ("runs", .arr (l.runs.map Run.toJson))]

/-- The form of a log. -/
def Log.shape : Shape :=
  .record "SarifReport"
    [("version", .required, .string), ("$schema", .required, .string),
      ("runs", .required, .sequence Run.shape)]

/-- The log of a fitted tree. -/
def Log.ofJson (v : Json) : Log :=
  ⟨v.textAt "version", v.textAt "$schema", (v.itemsAt "runs").map Run.ofJson⟩

end Sarif

end PatternAudit
