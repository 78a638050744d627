/-
Findings of the dialects.

An engine only says what it thinks of a pattern; `Dialect.validateWith` makes the
finding. Engines count bytes, findings count characters. A refused pattern gets a fix
only when appending one delimiter makes the same engine accept it.

The engine is a parameter, so that what holds of findings holds whatever the engine
says. The engines of the dialects are `Dialect.enginesWithin`, of which only that of ECMAScript
depends on more than the pattern; `Dialect.validate` takes one that answers at once.
-/
import PatternAudit.Dialect.Ecma.Thread
import PatternAudit.Dialect.Pcre.Check
import PatternAudit.Dialect.Re2.Check
import PatternAudit.Finding
import PatternAudit.Pattern.Delimiters

set_option autoImplicit false

namespace PatternAudit

namespace Dialect

/-- The engines of the dialects, where checks under ECMAScript run in the given threads and may
take some milliseconds. -/
def enginesWithin (threads : String → Ecma.Thread) (timeout : Nat) : Dialect → Engine
  | pcre => Pcre.check
  | ecma => Ecma.checkWithin threads timeout
  | re2 => Re2.check

/-- The engine of a dialect where every check answers at once. -/
def engine : Dialect → Engine := enginesWithin (fun _ => .answers 0) Ecma.defaultTimeout

/-- **Time decides only whether there is a fault.** A verdict that is none is that of the engine
where every check answers at once, and stays so with more time. -/
theorem enginesWithin_eq_engine {threads : String → Ecma.Thread} {timeout longer : Nat}
    {d : Dialect} {pattern : String}
    (h : ∀ reason, enginesWithin threads timeout d pattern ≠ .fault reason)
    (hlonger : timeout ≤ longer) : enginesWithin threads longer d pattern = d.engine pattern := by
  cases d with
  | pcre | re2 => rfl
  | ecma =>
    obtain ⟨reason, hfault⟩ | ⟨after, hafter, hthread⟩ :=
      Ecma.fault_or_answers threads timeout pattern
    · exact absurd hfault (h reason)
    · simp only [enginesWithin, engine, Ecma.checkWithin, hthread]
      rw [if_pos (Nat.le_trans hafter hlonger), if_pos (Nat.zero_le _)]

/-! ## Wording -/

/-- The message on a refused pattern; `index` counts characters. -/
def rejectionMessage (d : Dialect) (diagnostic : String) (index : Option Nat) : String :=
  "Invalid " ++ d.displayName ++ " syntax: " ++ diagnostic
    ++ (match index with
      | some i => " near index " ++ toString i
      | none => "")

/-- The advice on a refused pattern. -/
def rejectionAdvice (d : Dialect) (index : Option Nat) : String :=
  (match index with
    | some i => "Review the pattern around index " ++ toString i ++ ". "
    | none => "") ++ d.restriction

/-- The message on a check that could not finish. -/
def faultMessage (d : Dialect) (reason : String) : String :=
  "An unexpected error occurred during " ++ d.displayName ++ " validation: " ++ reason

/-- The advice on a check that could not finish. -/
def faultAdvice (d : Dialect) : String :=
  "The " ++ d.displayName
    ++ " validator could not complete. Re-run the audit or check this pattern manually."

/-! ## Findings -/

/-- The pattern with its missing delimiter, when the engine accepts that. -/
def delimiterFix? (engine : Engine) (pattern : String) : Option String :=
  (Pattern.repair? pattern).filter fun fixed => (engine fixed).isAccepted

/-- The finding of a dialect on a pattern, by an engine. -/
def validateWith (engine : Engine) (d : Dialect) (location pattern : String) : Finding :=
  match engine pattern with
  | .accepted => Finding.valid location pattern d
  | .rejected diagnostic offset =>
    let index := offset.map (Text.charIndex pattern.toList)
    Finding.error location pattern d .dialectSyntax (d.rejectionMessage diagnostic index)
      (d.rejectionAdvice index) (delimiterFix? engine pattern)
  | .fault reason =>
    Finding.error location pattern d .dialectFault (d.faultMessage reason) d.faultAdvice none

/-- The finding of a dialect on a pattern. -/
def validate (d : Dialect) (location pattern : String) : Finding :=
  d.validateWith d.engine location pattern

end Dialect

end PatternAudit
