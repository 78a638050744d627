/-
What a dialect says of a pattern.

A dialect accepts a pattern, refuses it with a diagnostic and, where it can tell,
the byte at fault, or cannot finish the check. The last is a
fault of the check and says nothing about the pattern.
-/

set_option autoImplicit false

namespace PatternAudit

/-- The outcome of checking one pattern under one dialect. -/
inductive Verdict where
  | accepted
  | rejected (diagnostic : String) (offset : Option Nat)
  | fault (reason : String)
  deriving DecidableEq, Inhabited

namespace Verdict

/-- Whether the pattern is accepted. -/
def isAccepted : Verdict → Bool
  | accepted => true
  | _ => false

end Verdict

/-- A check of patterns under one dialect. -/
abbrev Engine := String → Verdict

end PatternAudit
