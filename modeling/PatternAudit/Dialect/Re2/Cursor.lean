/-
Walking a pattern.

A cursor holds what is left, how many bytes were passed, and whether the flag `x` is
on. Under that flag blanks and comments (from `#` to the end of the line)
may stand between any two tokens.
-/
import PatternAudit.Text.Blank
import PatternAudit.Text.Utf8
import PatternAudit.Dialect.Re2.Node

set_option autoImplicit false

namespace PatternAudit.Re2

/-- What is left of a pattern, and where it begins. -/
structure Cursor where
  rest : List Char
  index : Nat
  verbose : Bool

/-- The number of blanks and comments at the front. The flag says that a comment is
being read. -/
def gapLength : Bool → List Char → Nat
  | _, [] => 0
  | true, c :: cs => 1 + gapLength (c != '\n') cs
  | false, c :: cs =>
    if Text.isBlank c then 1 + gapLength false cs
    else if c = '#' then 1 + gapLength true cs
    else 0

namespace Cursor

/-- The start of a pattern. -/
def ofPattern (pattern : String) : Cursor := ⟨pattern.toList, 0, false⟩

/-- Whether nothing is left. -/
def atEnd (c : Cursor) : Bool := c.rest.isEmpty

/-- Whether the given character is next. -/
def starts (c : Cursor) (x : Char) : Bool := c.rest.head? == some x

/-- Moves over `n` characters, or over what is left. -/
def skip (c : Cursor) (n : Nat) : Cursor :=
  { c with rest := c.rest.drop n, index := c.index + Text.byteSize (c.rest.take n) }

/-- Moves over one character, if there is one. -/
def bump (c : Cursor) : Cursor := if c.atEnd then c else c.skip 1

/-- Moves over blanks and comments where the flag `x` allows them. -/
def skipGap (c : Cursor) : Cursor := if c.verbose then c.skip (gapLength false c.rest) else c

/-- Moves over one character and what may stand after it. -/
def next (c : Cursor) : Cursor := c.bump.skipGap

/-- Moves over a text, if it is next. -/
def skipText? (c : Cursor) (text : String) : Option Cursor :=
  if text.toList.isPrefixOf c.rest then some (c.skip text.length) else none

/-- Moves over blanks, which a count may have around its digits. -/
def skipBlanks (c : Cursor) : Cursor := c.skip (c.rest.takeWhile Text.isBlank).length

/-- The character after the next one, looked for past what the flag `x` allows to
stand between. A comment is looked into: its first character that is no blank is
taken for the one after. -/
def peekPastGap? (c : Cursor) : Option Char :=
  let tail := c.rest.drop 1
  if !c.verbose then tail.head?
  else
    match tail.dropWhile Text.isBlank with
    | '#' :: more => ((more.dropWhile Text.isBlank).head?).or tail.head?
    | x :: _ => some x
    | [] => tail.head?

end Cursor

end PatternAudit.Re2
