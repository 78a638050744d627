/-
A kept result and its written form.

The written form is what a file of the cache directory holds. Files without a sequence
number are read as if it were 0.
-/
import PatternAudit.Json.Read
import PatternAudit.Json.Write
import PatternAudit.Report.Form

set_option autoImplicit false

namespace PatternAudit.Cache

/-- A report, when it was stored, and its number among what was stored in one run. -/
structure Entry where
  report : Report
  /-- seconds on the clock -/
  storedAt : Nat
  sequence : Nat
  deriving DecidableEq, Inhabited

namespace Entry

/-- Whether an entry is no younger than another one. -/
def isOlder (a b : Entry) : Bool :=
  a.storedAt < b.storedAt || (a.storedAt == b.storedAt && a.sequence ≤ b.sequence)

/-- Whether an entry is less than `lifetime` seconds old. -/
def isFresh (lifetime seconds : Nat) (e : Entry) : Bool := seconds - e.storedAt < lifetime

/-- The tree of an entry. -/
def toJson (e : Entry) : Json :=
  .obj [("report", e.report.toJson), ("stored_at", .ofNat e.storedAt), ("seq", .ofNat e.sequence)]

/-- The form of an entry. -/
def shape : Shape :=
  .record "CacheEntry"
    [("report", .required, Report.shape), ("stored_at", .required, .natural "u64"),
      ("seq", .optional, .natural "u64")]

/-- The entry of a fitted tree. -/
def ofJson (v : Json) : Entry where
  report := Report.ofJson ((v.get? "report").getD .null)
  storedAt := v.naturalAt "stored_at"
  sequence := v.naturalAt "seq"

/-- The text of an entry. -/
def text (e : Entry) : String := Json.Write.compact e.toJson

/-- The entry of a text. -/
def ofText? (s : String) : Option Entry :=
  match Json.Read.parseAs shape s with
  | .ok v => some (ofJson v)
  | .error _ => none

end Entry

end PatternAudit.Cache
