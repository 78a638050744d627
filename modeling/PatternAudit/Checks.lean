/-
The checks that an audit can make besides the dialects, each on or off.

A check is asked for by name; two have a short name besides. Case, outer blanks
and the choice between `-` and `_` do not matter.
-/
import PatternAudit.Text.Blank
import PatternAudit.Text.Lower

set_option autoImplicit false

namespace PatternAudit

/-- Which checks are made. -/
structure Checks where
  /-- flag `.*` and `.+` -/
  permissive : Bool
  /-- flag patterns that are not wrapped in `^...$` -/
  anchors : Bool
  /-- flag repeated groups that repeat something inside -/
  backtracking : Bool
  operationId : Bool
  summary : Bool
  schemaDescription : Bool
  schemaExample : Bool
  /-- flag path segments with capital letters -/
  pathNaming : Bool
  deriving DecidableEq, Inhabited

namespace Checks

/-- No check. -/
def none : Checks := ⟨false, false, false, false, false, false, false, false⟩

/-- Every check. -/
def all : Checks := ⟨true, true, true, true, true, true, true, true⟩

/-- The names of the checks, in the order in which they are declared. -/
def names : List String :=
  ["permissive", "anchors", "backtracking", "operation_id", "summary", "schema_description",
    "schema_example", "path_naming"]

/-- The name of a check as it is compared. -/
def normalName (s : String) : String :=
  String.ofList ((Text.lower (Text.trim s)).toList.map fun c => if c = '-' then '_' else c)

/-- Turns a check on by name; `none` for an unknown name. -/
def enable? (c : Checks) (name : String) : Option Checks :=
  match normalName name with
  | "permissive" => some { c with permissive := true }
  | "anchors" => some { c with anchors := true }
  | "backtracking" => some { c with backtracking := true }
  | "redos" => some { c with backtracking := true }
  | "operation_id" => some { c with operationId := true }
  | "summary" => some { c with summary := true }
  | "schema_description" => some { c with schemaDescription := true }
  | "schema_example" => some { c with schemaExample := true }
  | "path_naming" => some { c with pathNaming := true }
  | "naming" => some { c with pathNaming := true }
  | _ => .none

/-- Whether a check on patterns is on. -/
def anyPattern (c : Checks) : Bool := c.permissive || c.anchors || c.backtracking

/-- Whether a check on the description's elements is on. -/
def anyMetadata (c : Checks) : Bool :=
  c.operationId || c.summary || c.schemaDescription || c.schemaExample || c.pathNaming

end Checks

end PatternAudit
