/-
The balance of a pattern's brackets and parentheses, and how to restore it.

The scan is an automaton that takes one character at a time: `scan` is a fold,
so what a pattern's balance is after one more character is one step from what
it was before. Escaped characters and parentheses inside a class do not count.
A `]` right after `[` or `[^` stands for itself.

Two faults can be mended by appending a character: a class left open, and
parentheses left open. A closing parenthesis too many cannot.
-/

set_option autoImplicit false

namespace PatternAudit.Pattern

/-- Where in a pattern the scan is. -/
inductive Place where
  | outside
  /-- right after the `[` of a class -/
  | classStart
  /-- right after the `[^` of a class -/
  | negatedStart
  | inClass
  deriving DecidableEq

/-- The state of the scan. -/
structure Scan where
  place : Place
  /-- whether a backslash precedes -/
  escaped : Bool
  unclosed : Nat
  strayClose : Bool
  deriving DecidableEq

namespace Scan

/-- The state before the first character. -/
def start : Scan := ⟨.outside, false, 0, false⟩

/-- Takes one character. -/
def step (s : Scan) (c : Char) : Scan :=
  if s.escaped then { s with escaped := false }
  else if c = '\\' then
    { s with escaped := true, place := if s.place = .outside then .outside else .inClass }
  else match s.place with
    | .outside =>
      if c = '[' then { s with place := .classStart }
      else if c = '(' then { s with unclosed := s.unclosed + 1 }
      else if c = ')' then
        if s.unclosed = 0 then { s with strayClose := true } else { s with unclosed := s.unclosed - 1 }
      else s
    | .classStart => { s with place := if c = '^' then .negatedStart else .inClass }
    | .negatedStart => { s with place := .inClass }
    | .inClass => if c = ']' then { s with place := .outside } else s

/-- Scans characters. -/
def run (s : Scan) (cs : List Char) : Scan := cs.foldl step s

/-- Whether the scan is inside a class. -/
def openClass (s : Scan) : Bool := s.place != .outside

/-- What to append to a pattern with this balance, if that can mend it. -/
def missing? (s : Scan) : Option Char :=
  if s.strayClose then none
  else if s.openClass then some ']'
  else if 0 < s.unclosed then some ')'
  else none

theorem run_append (s : Scan) (cs ds : List Char) : s.run (cs ++ ds) = (s.run cs).run ds :=
  List.foldl_append

end Scan

/-- The balance of a pattern. -/
def scan (pattern : String) : Scan := Scan.start.run pattern.toList

/-- The pattern with the missing delimiter appended, if that can mend it. -/
def repair? (pattern : String) : Option String :=
  (scan pattern).missing?.map fun c => String.ofList (pattern.toList ++ [c])

end PatternAudit.Pattern
