/-
What can go wrong around an audit.

Nothing here is raised by the audit itself: a pattern that an engine refuses is
a finding, and a place that the traversal cannot enter is reported beside the
findings. These are the failures to load a description, a profile or a stored
report.
-/

set_option autoImplicit false

namespace PatternAudit

/-- A failure to load or store something. -/
inductive Error where
  | io (cause : String)
  | parse (cause : String)
  /-- a tree without a version field, under the name of its source -/
  | notDescription (source : String)
  | fetch (url reason : String)
  | profile (cause : String)
  | cache (cause : String)
  deriving DecidableEq

/-- The message of a failure. -/
def Error.message : Error → String
  | io cause => "io error: " ++ cause
  | parse cause => "failed to parse document: " ++ cause
  | notDescription source =>
    "not an OpenAPI document: " ++ source ++ " has no 'openapi' or 'swagger' field"
  | fetch url reason => "failed to fetch " ++ url ++ ": " ++ reason
  | profile cause => "invalid configuration: " ++ cause
  | cache cause => "cache error: " ++ cause

/-- A step after another one has a result where both have one. -/
theorem bind_eq_ok_iff {ε α β : Type} {x : Except ε α} {f : α → Except ε β} {b : β} :
    (x >>= f) = .ok b ↔ ∃ a, x = .ok a ∧ f a = .ok b := by
  cases x <;> simp [bind, Except.bind]

end PatternAudit
