/-
Why a pattern is no regular expression of JavaScript.
-/

set_option autoImplicit false

namespace PatternAudit.Ecma

/-- The cause of a refusal. -/
inductive Refusal where
  | unbalancedBracket
  | unbalancedParenthesis
  /-- a quantifier where an atom should be -/
  | invalidAtom
  /-- a counted quantifier where an atom should be -/
  | invalidBraces
  /-- a count whose bounds are in the wrong order -/
  | invalidQuantifier
  /-- a quantifier after an anchor or a look-behind -/
  | quantifierNotAllowed
  | invalidModifier
  | invalidGroupName
  | duplicateGroupName
  | unknownGroupName (name : String)
  | unfinishedReference
  | reversedRange
  /-- a backslash at the end of the pattern -/
  | incompleteEscape
  /-- a backslash at the end of the pattern, inside a class -/
  | unterminatedEscape
  deriving DecidableEq, Inhabited

/-- The wording of a refusal. -/
def Refusal.message : Refusal → String
  | unbalancedBracket => "Unbalanced bracket"
  | unbalancedParenthesis => "Unbalanced parenthesis"
  | invalidAtom => "Invalid atom character"
  | invalidBraces => "Invalid braced quantifier"
  | invalidQuantifier => "Invalid quantifier"
  | quantifierNotAllowed => "Quantifier not allowed here"
  | invalidModifier => "Invalid group modifier"
  | invalidGroupName => "Invalid token at named capture group identifier"
  | duplicateGroupName => "Duplicate capture group name"
  | unknownGroupName name => "Backreference to invalid named capture group: " ++ name
  | unfinishedReference => "Unexpected end of named backreference"
  | reversedRange =>
    "Range values reversed, start char code is greater than end char code."
  | incompleteEscape => "Incomplete escape"
  | unterminatedEscape => "Unterminated escape"

end PatternAudit.Ecma
