/-
The tokens of a YAML text, and the characters that shape them.

`Cursor` walks the text and keeps count of characters, lines and columns. Five
characters end a line: line feed, carriage return (one end together with a
line feed after it), next line, line separator and paragraph separator.
-/
import PatternAudit.Text.Hex
import PatternAudit.Yaml.Fault

set_option autoImplicit false

namespace PatternAudit.Yaml

/-! ## Tokens -/

/-- How a scalar is written. -/
inductive Style where
  | plain
  | single
  | double
  | literal
  | folded
  deriving DecidableEq, Inhabited

/-- A token. -/
inductive Token where
  | streamStart
  | streamEnd
  | versionDirective (major minor : Nat)
  | tagDirective (handle lead : String)
  | documentStart
  | documentEnd
  | blockSequenceStart
  | blockMappingStart
  | blockEnd
  | flowSequenceStart
  | flowSequenceEnd
  | flowMappingStart
  | flowMappingEnd
  | blockEntry
  | flowEntry
  | key
  | value
  | aliasTo (name : String)
  | anchor (name : String)
  | tag (handle suffix : String)
  | scalar (text : String) (style : Style)
  deriving DecidableEq, Inhabited

/-- A token and where it stands. -/
structure Placed where
  token : Token
  start : Mark
  stop : Mark
  deriving Inhabited

/-! ## Characters -/

/-- The characters that end a line. -/
def isBreak (c : Char) : Bool :=
  c = '\n' || c = '\r' || c = '\u0085' || c = '\u2028' || c = '\u2029'

/-- Space and tab. -/
def isBlank (c : Char) : Bool := c = ' ' || c = '\t'

/-- Letters, digits, `_` and `-`, of which names are made. -/
def isWord (c : Char) : Bool :=
  ('0' ≤ c && c ≤ '9') || ('A' ≤ c && c ≤ 'Z') || ('a' ≤ c && c ≤ 'z') || c = '_' || c = '-'

/-- The characters that a YAML text may hold. -/
def isAllowed (c : Char) : Bool :=
  let n := c.toNat
  n = 0x09 || n = 0x0A || n = 0x0D || (0x20 ≤ n && n ≤ 0x7E) || n = 0x85
    || (0xA0 ≤ n && n ≤ 0xD7FF) || (0xE000 ≤ n && n ≤ 0xFFFD) || 0x10000 ≤ n

/-! ## Cursors -/

/-- What is left of a text, and where it begins. -/
structure Cursor where
  rest : List Char
  mark : Mark
  /-- the length of the whole text, which bounds every loop over what is left -/
  size : Nat
  deriving Inhabited

namespace Cursor

/-- The start of a text. -/
def ofText (text : String) : Cursor := ⟨text.toList, Mark.start, text.length⟩

/-- The next character. -/
def head? (c : Cursor) : Option Char := c.rest.head?

/-- Whether the next character is the given one. -/
def starts (c : Cursor) (x : Char) : Bool := c.rest.head? == some x

/-- Whether the `n`-th character from here is a blank, ends a line or ends the text. -/
def isGapAt (c : Cursor) (n : Nat) : Bool :=
  match c.rest[n]? with
  | none => true
  | some x => isBlank x || isBreak x

/-- Moves over `n` characters of the line, which the caller has seen. -/
def skip (c : Cursor) (n : Nat) : Cursor :=
  { c with rest := c.rest.drop n, mark := ⟨c.mark.index + n, c.mark.line, c.mark.column + n⟩ }

/-- Moves over the end of a line, if there is one here. -/
def skipBreak (c : Cursor) : Cursor :=
  match c.rest with
  | '\r' :: '\n' :: rest => { c with rest, mark := ⟨c.mark.index + 2, c.mark.line + 1, 0⟩ }
  | x :: rest =>
    if isBreak x then { c with rest, mark := ⟨c.mark.index + 1, c.mark.line + 1, 0⟩ } else c
  | [] => c

/-- What the end of a line counts for in a scalar: the two separators stand for
themselves, the others for a line feed. -/
def breakText (c : Cursor) : List Char :=
  match c.rest with
  | x :: _ => if x = '\u2028' || x = '\u2029' then [x] else if isBreak x then ['\n'] else []
  | [] => []

/-- Takes the characters of a class, and moves over them. -/
def takeWhile (c : Cursor) (p : Char → Bool) : List Char × Cursor :=
  let run := c.rest.takeWhile p
  (run, c.skip run.length)

/-- Moves over the characters of a class. -/
def dropWhile (c : Cursor) (p : Char → Bool) : Cursor := (c.takeWhile p).2

/-- Whether a line of three dashes or three dots begins here. -/
def atDocumentIndicator (c : Cursor) : Bool :=
  c.mark.column = 0 && (match c.rest with
    | '-' :: '-' :: '-' :: _ => true
    | '.' :: '.' :: '.' :: _ => true
    | _ => false) && c.isGapAt 3

end Cursor

end PatternAudit.Yaml
