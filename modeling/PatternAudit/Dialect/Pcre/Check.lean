/-
Whether a backtracking engine accepts a pattern: it must read, and nothing must stand
in the way of preparing it.
-/
import PatternAudit.Dialect.Pcre.Preparation
import PatternAudit.Dialect.Pcre.Tree
import PatternAudit.Dialect.Verdict

set_option autoImplicit false

namespace PatternAudit.Pcre

/-- Checks a pattern. A tree nests at most twice as deep as its pattern is long. -/
def check : Engine := fun pattern =>
  match Node.ofPattern pattern with
  | .error (.read cause index) => .rejected cause.message (some index)
  | .error (.prepare cause) => .rejected cause.message none
  | .ok (n, referred) =>
    match n.obstacle? referred (2 * pattern.length + 2) with
    | none => .accepted
    | some cause => .rejected cause.message none

end PatternAudit.Pcre
