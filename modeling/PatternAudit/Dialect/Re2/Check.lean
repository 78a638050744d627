/-
Whether an automaton engine accepts a pattern: it must read, mean something, and have
an automaton that stays within the size limit.
-/
import PatternAudit.Dialect.Re2.Meaning
import PatternAudit.Dialect.Re2.Tree
import PatternAudit.Dialect.Verdict

set_option autoImplicit false

namespace PatternAudit.Re2

/-- The shape of a pattern. -/
def Shape.ofPattern (pattern : String) : Reading Shape := do
  let n ← Node.ofPattern pattern
  let (s, _) ← n.shape Flags.start
  .ok s

/-- Whether an automaton of this shape stays within the limit. -/
def Shape.fits (s : Shape) : Bool := s.bytes ≤ sizeLimit

/-- Checks a pattern. -/
def check : Engine := fun pattern =>
  match Shape.ofPattern pattern with
  | .error (cause, index) => .rejected cause.message (some index)
  | .ok s =>
    if s.fits then .accepted
    else
      .rejected ("Compiled regex exceeds size limit of " ++ toString sizeLimit ++ " bytes.") none

end PatternAudit.Re2
