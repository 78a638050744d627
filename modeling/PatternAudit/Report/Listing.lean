/-
Reports as one JSON document.

A listing holds the verdict over all reports and, for each report, its groups with
their status and line beside the findings. It can be read back.
-/
import PatternAudit.Report.Form

set_option autoImplicit false

namespace PatternAudit

/-- The version of the tool. -/
def toolVersion : String := "0.1.0"

/-- The name of the tool. -/
def toolName : String := "oasregex"

/-- A report, and the id under which it can be asked for again, if it was kept. -/
structure Filed where
  report : Report
  id : Option String

namespace Group

/-- The severity of a group: that of its worst finding. -/
def status (g : Group) : Severity :=
  if g.hasError then .error else if g.hasWarning then .warning else .valid

end Group

/-! ## Listings -/

namespace Listing

/-- A group in a listing. -/
structure Result where
  location : String
  pattern : String
  line : Nat
  status : String
  findings : List Finding
  deriving DecidableEq, Inhabited

/-- A report in a listing. -/
structure Entry where
  document : String
  id : Option String
  specVersion : Option String
  dialects : List String
  summary : Summary
  results : List Result
  skipped : List Diagnostic
  deriving DecidableEq, Inhabited

end Listing

/-- Reports and the verdict over them. -/
structure Listing where
  version : String
  passed : Bool
  documents : List Listing.Entry
  deriving DecidableEq, Inhabited

namespace Listing

/-- A group as a listing has it. -/
def Result.ofGroup (g : Group) : Result :=
  ⟨g.location, g.pattern, g.line, g.status.name, g.findings⟩

/-- A report as a listing has it. -/
def Entry.ofFiled (f : Filed) : Entry where
  document := f.report.document
  id := f.id
  specVersion := f.report.specVersion
  dialects := f.report.dialects.map Dialect.displayName
  summary := f.report.summary
  results := f.report.groups.map Result.ofGroup
  skipped := f.report.skipped

/-- The listing of reports. -/
def ofFiled (filed : List Filed) (passed : Bool) : Listing :=
  ⟨toolVersion, passed, filed.map Entry.ofFiled⟩

/-! ## The written form -/

/-- The tree of a result. -/
def Result.toJson (r : Result) : Json :=
  .obj [("location", .str r.location), ("pattern", .str r.pattern), ("line", .ofNat r.line),
    ("status", .str r.status), ("findings", .arr (r.findings.map Finding.toJson))]

/-- The form of a result. -/
def Result.shape : Shape :=
  .record "JsonGroup"
    [("location", .required, .string), ("pattern", .required, .string),
      ("line", .required, .count), ("status", .required, .string),
      ("findings", .required, .sequence Finding.shape)]

/-- The result of a fitted tree. -/
def Result.ofJson (v : Json) : Result :=
  ⟨v.textAt "location", v.textAt "pattern", v.naturalAt "line", v.textAt "status",
    (v.itemsAt "findings").map Finding.ofJson⟩

/-- The tree of an entry. -/
def Entry.toJson (e : Entry) : Json :=
  .obj <|
    ("document", .str e.document) :: Json.optionalText "id" e.id
    ++ Json.optionalText "spec_version" e.specVersion
    ++ [("dialects", .arr (e.dialects.map Json.str)), ("summary", e.summary.toJson),
      ("results", .arr (e.results.map Result.toJson))]
    ++ Diagnostic.member e.skipped

/-- The form of an entry. -/
def Entry.shape : Shape :=
  .record "JsonDocument"
    [("document", .required, .string), ("id", .optional, .optionalText),
      ("spec_version", .optional, .optionalText), ("dialects", .required, .sequence .string),
      ("summary", .required, Summary.shape), ("results", .required, .sequence Result.shape),
      ("skipped", .optional, .sequence Diagnostic.shape)]

/-- The entry of a fitted tree. -/
def Entry.ofJson (v : Json) : Entry where
  document := v.textAt "document"
  id := v.text?At "id"
  specVersion := v.text?At "spec_version"
  dialects := (v.itemsAt "dialects").filterMap Json.asStr?
  summary := Summary.ofJson ((v.get? "summary").getD .null)
  results := (v.itemsAt "results").map Result.ofJson
  skipped := (v.itemsAt "skipped").map Diagnostic.ofJson

/-- The tree of a listing. -/
def toJson (l : Listing) : Json :=
  .obj [("version", .str l.version), ("passed", .bool l.passed),
    ("documents", .arr (l.documents.map Entry.toJson))]

/-- The form of a listing. -/
def shape : Shape :=
  .record "JsonReport"
    [("version", .required, .string), ("passed", .required, .boolean),
      ("documents", .required, .sequence Entry.shape)]

/-- The listing of a fitted tree. -/
def ofJson (v : Json) : Listing :=
  ⟨v.textAt "version", v.boolAt "passed", (v.itemsAt "documents").map Entry.ofJson⟩

end Listing

end PatternAudit
