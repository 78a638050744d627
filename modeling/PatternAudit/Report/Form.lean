/-
The written form of findings, groups and reports.

`toJson` writes a value as a tree, `shape` is the form that a reader accepts,
and `ofJson` takes the value out of a tree that has been fitted to the shape.
Optional fields without a value are left out. What a fitted tree lacks counts
as empty, so that taking a value out cannot fail.
-/
import PatternAudit.Checks
import PatternAudit.Json.Shape
import PatternAudit.Report.Basic

set_option autoImplicit false

namespace PatternAudit

/-! ## Members -/

namespace Json

/-- The text of a member. -/
def textAt (key : String) (v : Json) : String := ((v.get? key).bind asStr?).getD ""

/-- The text of a member that may be missing or null. -/
def text?At (key : String) (v : Json) : Option String := (v.get? key).bind asStr?

/-- The natural number of a node. -/
def natural (v : Json) : Nat :=
  match v with
  | .num (.int n) => n.toNat
  | _ => 0

/-- The natural number of a member. -/
def naturalAt (key : String) (v : Json) : Nat := ((v.get? key).map natural).getD 0

/-- The truth value of a member. -/
def boolAt (key : String) (v : Json) : Bool :=
  match v.get? key with
  | some (.bool b) => b
  | _ => false

/-- The items of a member. -/
def itemsAt (key : String) (v : Json) : List Json := ((v.get? key).bind asArr?).getD []

/-- The members of a member. -/
def membersAt (key : String) (v : Json) : List (String × Json) := ((v.get? key).bind asObj?).getD []

/-- A natural number as a node. -/
def ofNat (n : Nat) : Json := .num (.int n)

/-- A member for a text that may be missing. -/
def optionalText (key : String) : Option String → List (String × Json)
  | some s => [(key, .str s)]
  | none => []

end Json

namespace Shape

/-- A count. -/
def count : Shape := .natural "usize"

/-- A text that may be missing or null. -/
def optionalText : Shape := .nullable .string

end Shape

/-! ## Findings -/

namespace Finding

/-- The tree of a finding. -/
def toJson (f : Finding) : Json :=
  .obj <|
    [("location", .str f.location), ("line_number", .ofNat f.line), ("pattern", .str f.pattern),
      ("source", .str f.origin.name), ("rule", .str f.rule.name), ("severity", .str f.severity.name),
      ("is_syntactically_valid", .bool f.compiles), ("message", .str f.message)]
    ++ Json.optionalText "suggestion" f.suggestion
    ++ Json.optionalText "suggested_fix" f.suggestedFix

/-- The form of a finding. -/
def shape : Shape :=
  .record "Finding"
    [("location", .required, .string), ("line_number", .required, .count),
      ("pattern", .required, .string),
      ("source", .required, .refined (fun s => (Origin.ofName? s).isSome) Origin.unknownName),
      ("rule", .required, .variant (Rule.all.map Rule.name)),
      ("severity", .required, .variant (Severity.all.map Severity.name)),
      ("is_syntactically_valid", .required, .boolean), ("message", .required, .string),
      ("suggestion", .optional, .optionalText), ("suggested_fix", .optional, .optionalText)]

/-- The finding of a fitted tree. -/
def ofJson (v : Json) : Finding where
  location := v.textAt "location"
  line := v.naturalAt "line_number"
  pattern := v.textAt "pattern"
  origin := (Origin.ofName? (v.textAt "source")).getD .quality
  rule := (Rule.ofName? (v.textAt "rule")).getD .dialectSyntax
  severity := (Severity.ofName? (v.textAt "severity")).getD .valid
  compiles := v.boolAt "is_syntactically_valid"
  message := v.textAt "message"
  suggestion := v.text?At "suggestion"
  suggestedFix := v.text?At "suggested_fix"

end Finding

/-! ## Groups and summaries -/

namespace Group

/-- The tree of a group. -/
def toJson (g : Group) : Json :=
  .obj [("location", .str g.location), ("pattern", .str g.pattern),
    ("findings", .arr (g.findings.map Finding.toJson))]

/-- The form of a group. -/
def shape : Shape :=
  .record "GroupedFinding"
    [("location", .required, .string), ("pattern", .required, .string),
      ("findings", .required, .sequence Finding.shape)]

/-- The group of a fitted tree. -/
def ofJson (v : Json) : Group where
  location := v.textAt "location"
  pattern := v.textAt "pattern"
  findings := (v.itemsAt "findings").map Finding.ofJson

end Group

namespace Tally

/-- The tree of counts. -/
def toJson (t : Tally) : Json := .obj (t.map fun e => (e.1, .ofNat e.2))

/-- The counts of a member. -/
def ofMember (key : String) (v : Json) : Tally :=
  ofPairs ((v.membersAt key).map fun m => (m.1, m.2.natural))

end Tally

namespace Summary

/-- The tree of a summary. -/
def toJson (s : Summary) : Json :=
  .obj [("total_locations", .ofNat s.locations), ("clean", .ofNat s.clean),
    ("with_error", .ofNat s.withError), ("warning_only", .ofNat s.warningOnly),
    ("errors_by_dialect", s.errorsByDialect.toJson),
    ("warnings_by_message", s.warningsByMessage.toJson)]

/-- The form of a summary. -/
def shape : Shape :=
  .record "AuditSummary"
    [("total_locations", .required, .count), ("clean", .required, .count),
      ("with_error", .required, .count), ("warning_only", .required, .count),
      ("errors_by_dialect", .required, .mapping .count),
      ("warnings_by_message", .required, .mapping .count)]

/-- The summary of a fitted tree. -/
def ofJson (v : Json) : Summary where
  locations := v.naturalAt "total_locations"
  clean := v.naturalAt "clean"
  withError := v.naturalAt "with_error"
  warningOnly := v.naturalAt "warning_only"
  errorsByDialect := Tally.ofMember "errors_by_dialect" v
  warningsByMessage := Tally.ofMember "warnings_by_message" v

end Summary

/-! ## Reports -/

namespace Diagnostic

/-- The tree of a diagnostic. -/
def toJson (d : Diagnostic) : Json := .obj [("location", .str d.location), ("reason", .str d.reason)]

/-- The form of a diagnostic. -/
def shape : Shape :=
  .record "Diagnostic" [("location", .required, .string), ("reason", .required, .string)]

/-- The diagnostic of a fitted tree. -/
def ofJson (v : Json) : Diagnostic := ⟨v.textAt "location", v.textAt "reason"⟩

/-- The member for the places that were skipped, left out when there are none. -/
def member (ds : List Diagnostic) : List (String × Json) :=
  if ds.isEmpty then [] else [("skipped", .arr (ds.map toJson))]

end Diagnostic

namespace Report

/-- The tree of a report. -/
def toJson (r : Report) : Json :=
  .obj <|
    ("document", .str r.document) :: Json.optionalText "spec_version" r.specVersion
    ++ [("dialects", .arr (r.dialects.map fun d => .str d.name)),
      ("groups", .arr (r.groups.map Group.toJson)), ("summary", r.summary.toJson)]
    ++ Diagnostic.member r.skipped

/-- The form of a report. -/
def shape : Shape :=
  .record "AuditReport"
    [("document", .required, .string), ("spec_version", .optional, .optionalText),
      ("dialects", .required, .sequence (.variant (Dialect.all.map Dialect.name))),
      ("groups", .required, .sequence Group.shape), ("summary", .required, Summary.shape),
      ("skipped", .optional, .sequence Diagnostic.shape)]

/-- The dialect of a short name. -/
def dialectOf (v : Json) : Option Dialect :=
  v.asStr?.bind fun s => Dialect.all.find? fun d => d.name == s

/-- The report of a fitted tree. -/
def ofJson (v : Json) : Report where
  document := v.textAt "document"
  specVersion := v.text?At "spec_version"
  dialects := (v.itemsAt "dialects").filterMap dialectOf
  groups := (v.itemsAt "groups").map Group.ofJson
  summary := Summary.ofJson ((v.get? "summary").getD .null)
  skipped := (v.itemsAt "skipped").map Diagnostic.ofJson

end Report

/-! ## Checks -/

namespace Checks

/-- The tree of the checks. -/
def toJson (c : Checks) : Json :=
  .obj [("permissive", .bool c.permissive), ("anchors", .bool c.anchors),
    ("backtracking", .bool c.backtracking), ("operation_id", .bool c.operationId),
    ("summary", .bool c.summary), ("schema_description", .bool c.schemaDescription),
    ("schema_example", .bool c.schemaExample), ("path_naming", .bool c.pathNaming)]

/-- The form of the checks. -/
def shape : Shape := .record "Checks" (names.map fun name => (name, .optional, .boolean))

/-- The checks of a fitted tree. -/
def ofJson (v : Json) : Checks where
  permissive := v.boolAt "permissive"
  anchors := v.boolAt "anchors"
  backtracking := v.boolAt "backtracking"
  operationId := v.boolAt "operation_id"
  summary := v.boolAt "summary"
  schemaDescription := v.boolAt "schema_description"
  schemaExample := v.boolAt "schema_example"
  pathNaming := v.boolAt "path_naming"

end Checks

end PatternAudit
