/-
A suggested fix is usable.

A fix is offered for a refused pattern only, and only if the engine that refused the pattern
accepts the fix. It is the pattern with one delimiter behind it: the bracket of a class that is
open at the end, or else the parenthesis of a group, and neither where a parenthesis is closed
that was never opened (`repair?_eq_some_iff`). Nothing is asked of the engine, which is any
function from patterns to verdicts, so all this holds of every dialect.

`suggestedFix_iff` says so in both directions: whatever meets these conditions is offered.
-/
import PatternAudit.Dialect.Validate

set_option autoImplicit false

namespace PatternAudit

namespace Pattern

/-- A class is closed before any group is. -/
theorem Scan.missing?_eq_some_iff {s : Scan} {c : Char} :
    s.missing? = some c ↔ s.strayClose = false ∧
      (s.openClass = true ∧ c = ']' ∨ s.openClass = false ∧ 0 < s.unclosed ∧ c = ')') := by
  unfold missing?
  cases s.strayClose with
  | true => simp
  | false =>
    cases s.openClass with
    | true => simp [eq_comm]
    | false => by_cases hopen : 0 < s.unclosed <;> simp [hopen, eq_comm]

/-- What a pattern is mended to. -/
theorem repair?_eq_some_iff {pattern fixed : String} :
    repair? pattern = some fixed ↔ (scan pattern).strayClose = false ∧
      ((scan pattern).openClass = true ∧ fixed = pattern ++ "]" ∨
        (scan pattern).openClass = false ∧ 0 < (scan pattern).unclosed ∧
          fixed = pattern ++ ")") := by
  have hbehind : ∀ c, String.ofList (pattern.toList ++ [c]) = pattern ++ String.ofList [c] := by
    intro c
    rw [String.ofList_append, String.ofList_toList]
  rw [repair?, Option.map_eq_some_iff]
  simp only [Scan.missing?_eq_some_iff, hbehind]
  constructor
  · rintro ⟨c, ⟨hstray, hclass⟩, rfl⟩
    refine ⟨hstray, ?_⟩
    rcases hclass with ⟨hopen, rfl⟩ | ⟨hclosed, hgroup, rfl⟩
    · exact Or.inl ⟨hopen, rfl⟩
    · exact Or.inr ⟨hclosed, hgroup, rfl⟩
  · rintro ⟨hstray, ⟨hopen, rfl⟩ | ⟨hclosed, hgroup, rfl⟩⟩
    · exact ⟨']', ⟨hstray, Or.inl ⟨hopen, rfl⟩⟩, rfl⟩
    · exact ⟨')', ⟨hstray, Or.inr ⟨hclosed, hgroup, rfl⟩⟩, rfl⟩

end Pattern

theorem Verdict.isAccepted_iff {v : Verdict} : v.isAccepted = true ↔ v = .accepted := by
  cases v <;> simp [isAccepted]

namespace Dialect

variable {engine : Engine} {d : Dialect} {location pattern fixed : String}

/-- The finding on a pattern is valid exactly if the engine accepts the pattern. -/
theorem severity_validateWith_iff :
    (d.validateWith engine location pattern).severity = .valid ↔ engine pattern = .accepted := by
  unfold validateWith
  cases engine pattern <;> simp [Finding.valid, Finding.error]

/-- An accepted pattern needs no fix. -/
theorem suggestedFix_of_accepted (h : engine pattern = .accepted) :
    (d.validateWith engine location pattern).suggestedFix = none := by
  rw [validateWith, h]
  rfl

theorem delimiterFix?_eq_some_iff :
    delimiterFix? engine pattern = some fixed ↔
      Pattern.repair? pattern = some fixed ∧ engine fixed = .accepted := by
  rw [delimiterFix?, Option.filter_eq_some_iff, Verdict.isAccepted_iff]

/-- A fix is offered where the engine refuses the pattern and accepts the mended one. -/
theorem suggestedFix_validateWith_iff :
    (d.validateWith engine location pattern).suggestedFix = some fixed ↔
      (∃ diagnostic offset, engine pattern = .rejected diagnostic offset) ∧
        Pattern.repair? pattern = some fixed ∧ engine fixed = .accepted := by
  rw [← delimiterFix?_eq_some_iff]
  unfold validateWith
  cases engine pattern <;> simp [Finding.valid, Finding.error]

/-- **A fix is always usable.** Whatever the engines are, a finding is valid exactly if its
engine accepts the pattern. A fix is offered exactly for refused patterns in which no group is
closed that is not open, if the bracket that the last class lacks, or else the parenthesis that
a group lacks, makes the pattern one whose own finding is valid and offers no fix. -/
theorem suggestedFix_iff (engines : Dialect → Engine) (d : Dialect) (location pattern : String) :
    let finding := d.validateWith (engines d) location pattern
    (finding.severity = .valid ↔ engines d pattern = .accepted) ∧
      ∀ fixed, finding.suggestedFix = some fixed ↔
        (∃ diagnostic offset, engines d pattern = .rejected diagnostic offset) ∧
          (Pattern.scan pattern).strayClose = false ∧
          ((Pattern.scan pattern).openClass = true ∧ fixed = pattern ++ "]" ∨
            (Pattern.scan pattern).openClass = false ∧ 0 < (Pattern.scan pattern).unclosed ∧
              fixed = pattern ++ ")") ∧
          ∀ there, (d.validateWith (engines d) there fixed).severity = .valid ∧
            (d.validateWith (engines d) there fixed).suggestedFix = none := by
  refine ⟨severity_validateWith_iff, fun fixed => ?_⟩
  rw [suggestedFix_validateWith_iff, Pattern.repair?_eq_some_iff]
  constructor
  -- the finding on the mended pattern says what the same engine said of it before
  · rintro ⟨hrefused, ⟨hstray, hdelimiter⟩, haccepted⟩
    exact ⟨hrefused, hstray, hdelimiter, fun _ =>
      ⟨severity_validateWith_iff.2 haccepted, suggestedFix_of_accepted haccepted⟩⟩
  · rintro ⟨hrefused, hstray, hdelimiter, hvalid⟩
    exact ⟨hrefused, ⟨hstray, hdelimiter⟩, severity_validateWith_iff.1 (hvalid location).1⟩

end Dialect

end PatternAudit
