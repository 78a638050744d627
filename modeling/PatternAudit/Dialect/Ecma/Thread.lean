/-
Checks under ECMAScript within a time limit.

A pattern can keep the check busy for long, so each check runs in a thread of its own, and its
answer is awaited no longer than the limit says. A thread that cannot be started, does not answer
in time or breaks off is a fault of the check. Which of these happens is up to the machine, so it
is a parameter here; what an answer says is up to the pattern alone.
-/
import PatternAudit.Dialect.Ecma.Check

set_option autoImplicit false

namespace PatternAudit.Ecma

/-- What becomes of the thread that checks a pattern. Times are in milliseconds. -/
inductive Thread where
  | unstarted (reason : String)
  | answers (after : Nat)
  | breaks (after : Nat)
  | hangs
  deriving DecidableEq, Inhabited

/-- The milliseconds that an answer is awaited if nothing else is said. -/
def defaultTimeout : Nat := 2000

/-- The fault of a check whose answer was awaited in vain. -/
def timedOut (timeout : Nat) : Verdict :=
  .fault ("validation timed out after " ++ toString timeout ++ "ms")

/-- Checks a pattern in a thread, and awaits the answer for some milliseconds. -/
def checkWithin (threads : String → Thread) (timeout : Nat) : Engine := fun pattern =>
  match threads pattern with
  | .unstarted reason => .fault ("could not start validation thread: " ++ reason)
  | .answers after => if after ≤ timeout then check pattern else timedOut timeout
  | .breaks after =>
    if after ≤ timeout then .fault "validation thread panicked" else timedOut timeout
  | .hangs => timedOut timeout

/-- A check is at fault unless its thread answers in time. -/
theorem fault_or_answers (threads : String → Thread) (timeout : Nat) (pattern : String) :
    (∃ reason, checkWithin threads timeout pattern = .fault reason) ∨
      ∃ after, after ≤ timeout ∧ threads pattern = .answers after := by
  unfold checkWithin
  cases threads pattern with
  | unstarted | hangs => exact Or.inl ⟨_, rfl⟩
  | breaks after =>
    by_cases hafter : after ≤ timeout
    · exact Or.inl ⟨_, if_pos hafter⟩
    · exact Or.inl ⟨_, if_neg hafter⟩
  | answers after =>
    by_cases hafter : after ≤ timeout
    · exact Or.inr ⟨after, hafter, rfl⟩
    · exact Or.inl ⟨_, if_neg hafter⟩

end PatternAudit.Ecma
