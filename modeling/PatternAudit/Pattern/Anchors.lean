/-
Anchors at the two ends of a pattern.

A pattern is anchored if it begins with `^` and ends with a `$` that no
backslash escapes; backslashes escape each other in pairs, so the `$` counts
when an even number of them stands before it.
-/

set_option autoImplicit false

namespace PatternAudit.Pattern

/-- Whether a pattern begins with an anchor. -/
def startsAnchored (cs : List Char) : Bool := cs.head? == some '^'

/-- Whether a pattern, given backwards, ends with an anchor. -/
def endsAnchoredRev : List Char → Bool
  | '$' :: before => (before.takeWhile (· = '\\')).length % 2 = 0
  | _ => false

/-- Whether a pattern ends with an anchor. -/
def endsAnchored (cs : List Char) : Bool := endsAnchoredRev cs.reverse

/-- Whether a pattern is anchored at both ends. -/
def isAnchored (cs : List Char) : Bool := startsAnchored cs && endsAnchored cs

/-- The pattern with the anchors that it lacks. -/
def anchor (cs : List Char) : List Char :=
  (if startsAnchored cs then [] else ['^']) ++ cs ++ (if endsAnchored cs then [] else ['$'])

end PatternAudit.Pattern
