/-
The checks on a pattern that no dialect makes.

Blanks around a pattern do not count for permissiveness and anchors. A pattern
that lets everything pass is reported as such and not also as unanchored.
-/
import PatternAudit.Checks
import PatternAudit.Finding
import PatternAudit.Pattern.Anchors
import PatternAudit.Pattern.Backtracking

set_option autoImplicit false

namespace PatternAudit.Pattern

/-- The advice on a pattern that lets everything pass; other patterns have none. -/
def permissiveAdvice? (trimmed : String) : Option String :=
  match trimmed with
  | ".*" => some "The pattern '.*' allows any sequence of characters, including an empty string. This is often too permissive and can lead to validation bypasses or unexpected behavior."
  | ".+" => some "The pattern '.+' allows any sequence of one or more characters. While slightly more restrictive than '.*', it is still very broad. Specify the character set and length if possible."
  | _ => none

/-- The advice on a pattern without anchors. -/
def anchorAdvice : String :=
  "The pattern is not anchored with '^' and '$' at the start and end, so it can match a substring within a larger, invalid string. Consider wrapping the pattern with '^' and '$' to ensure it matches the entire string."

/-- The advice on a repeated group that repeats. -/
def backtrackingAdvice : String :=
  "The pattern appears to contain nested quantifiers (e.g., (a+)+), which can lead to catastrophic backtracking on certain inputs. Consider refactoring the expression so repeated parts cannot overlap, or use a linear-time engine."

/-- Makes the checks that are on, in a fixed order. -/
def check (location pattern : String) (checks : Checks) : List Finding :=
  let trimmed := Text.trim pattern
  let weak := permissiveAdvice? trimmed
  let permissive := match weak with
    | some advice =>
      if checks.permissive then
        [Finding.warning location pattern .overlyPermissive "overly permissive pattern" advice none]
      else []
    | none => []
  let anchors :=
    if checks.anchors && weak.isNone && !isAnchored trimmed.toList then
      [Finding.warning location pattern .missingAnchors "missing anchors" anchorAdvice
        (some (String.ofList (anchor trimmed.toList)))]
    else []
  let backtracking :=
    if checks.backtracking && hasBacktrackingRisk pattern then
      [Finding.warning location pattern .backtrackingRisk "potential catastrophic-backtracking risk"
        backtrackingAdvice none]
    else []
  permissive ++ anchors ++ backtracking

end PatternAudit.Pattern
