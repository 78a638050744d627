/-
Where the reading of a pattern is, and what it remembers: the flags in force, the
groups that were opened, and the references to them.
-/
import PatternAudit.Text.Category
import PatternAudit.Text.Hex
import PatternAudit.Text.Utf8
import PatternAudit.Dialect.Pcre.Node
import PatternAudit.Dialect.Pcre.Refusal

set_option autoImplicit false

namespace PatternAudit.Pcre

/-- The flags that change how a pattern is read. -/
structure Flags where
  ignoreCase : Bool
  multiLine : Bool
  dotAll : Bool
  verbose : Bool

/-- What is left of a pattern, the byte where it begins, and what was read. -/
structure State where
  rest : List Char
  index : Nat
  flags : Flags
  /-- the number of groups that were opened -/
  groups : Nat
  /-- the numbers of the named groups; of two groups of one name the later counts -/
  names : List (String × Nat)
  /-- whether a reference by number was read -/
  numbered : Bool
  /-- the groups that escapes refer to -/
  referred : List Nat
  /-- whether a reference to a group came before the group -/
  early : Bool
  /-- the numbers from this one on are no references -/
  groupLimit : Nat

namespace State

/-- The start of a pattern. A group takes at least two bytes of the pattern, which
bounds the numbers that can be references. -/
def ofPattern (pattern : String) : State where
  rest := pattern.toList
  index := 0
  flags := ⟨false, false, false, false⟩
  groups := 0
  names := []
  numbered := false
  referred := []
  early := false
  groupLimit := pattern.utf8ByteSize / 2

/-- Whether nothing is left. -/
def atEnd (s : State) : Bool := s.rest.isEmpty

/-- Whether the given character is next. -/
def starts (s : State) (c : Char) : Bool := s.rest.head? == some c

/-- Moves over `n` characters, or over what is left. -/
def skip (s : State) (n : Nat) : State :=
  { s with rest := s.rest.drop n, index := s.index + Text.byteSize (s.rest.take n) }

/-- Moves over a text, if it is next. -/
def skipText? (s : State) (text : String) : Option State :=
  if text.toList.isPrefixOf s.rest then some (s.skip text.length) else none

/-- A literal under the flags in force. -/
def literal (s : State) (c : Char) : Node := .literal c s.flags.ignoreCase

/-- A part under the flags in force. -/
def part (s : State) (text : List Char) : Node := .part text s.flags.ignoreCase

/-- Opens a group with a number. -/
def openGroup (s : State) : State := { s with groups := s.groups + 1 }

/-- Opens a group with a name. -/
def openNamed (s : State) (name : String) : State :=
  { s with groups := s.groups + 1, names := (name, s.groups + 1) :: s.names }

/-- Notes a reference to a group. -/
def refer (s : State) (group : Nat) : State := { s with early := s.early || s.groups < group }

end State

/-! ## Gaps -/

/-- What a gap consists of: nothing yet, a line comment, or a comment in parentheses. -/
inductive Gap where
  | none
  | line
  | note

/-- Moves over comments in parentheses and, under the flag `x`, over blanks and line
comments. A comment in parentheses must be closed; a backslash in it hides the next
character. -/
def skipGapFrom (verbose : Bool) : Gap → Nat → List Char → Reading (Nat × List Char)
  | .note, i, [] => refuse .unclosedParenthesis i
  | .note, i, '\\' :: c :: cs => skipGapFrom verbose .note (i + 1 + c.utf8Size) cs
  | .note, i, c :: cs => skipGapFrom verbose (if c = ')' then .none else .note) (i + c.utf8Size) cs
  | .line, i, [] => .ok (i, [])
  | .line, i, c :: cs => skipGapFrom verbose (if c = '\n' then .none else .line) (i + c.utf8Size) cs
  | .none, i, [] => .ok (i, [])
  | .none, i, '(' :: '?' :: '#' :: cs => skipGapFrom verbose .note (i + 3) cs
  | .none, i, c :: cs =>
    if verbose && c = '#' then skipGapFrom verbose .line (i + 1) cs
    else if verbose && (c = ' ' || c = '\r' || c = '\n' || c = '\t') then
      skipGapFrom verbose .none (i + 1) cs
    else .ok (i, c :: cs)

/-- Moves over a gap. -/
def State.skipGap (s : State) : Reading State :=
  (skipGapFrom s.flags.verbose .none s.index s.rest).map fun (index, rest) => { s with index, rest }

/-! ## Numbers and names -/

/-- The first number that is too large to be read. -/
def numberLimit : Nat := 18446744073709551616

/-- A decimal number, and how many characters it takes. -/
def decimal? (cs : List Char) : Option (Nat × Nat) :=
  let ds := cs.takeWhile Text.isDigit
  let n := Text.decimalNumber ds
  if ds.isEmpty || numberLimit ≤ n then none else some (n, ds.length)

/-- Whether a name may have the character. -/
def isNameChar (c : Char) : Bool := c = '_' || Text.isAlphanumeric c

/-- A name between delimiters, and how many characters it takes with them. Where
relative numbers are allowed, a dash and digits make a name too. -/
def name? (opening closing : List Char) (relative : Bool) (cs : List Char) :
    Option (String × Nat) :=
  if !opening.isPrefixOf cs then none
  else
    let body := cs.drop opening.length
    let name :=
      if relative && body.head? == some '-' then
        '-' :: (body.drop 1).takeWhile Text.isDigit
      else body.takeWhile isNameChar
    if name.isEmpty || !closing.isPrefixOf (body.drop name.length) then none
    else some (String.ofList name, opening.length + name.length + closing.length)

/-- The group that a name refers to: a named group, a number, or a distance back from
the group that would be opened next. -/
def State.group? (s : State) (name : String) : Option Nat :=
  (s.names.lookup name).or <|
    match name.toList with
    | '-' :: ds =>
      let n := Text.decimalNumber ds
      if ds.isEmpty || s.groups + 1 < n then none else some (s.groups + 1 - n)
    | ds =>
      if ds.all Text.isDigit && 2 * Text.decimalNumber ds < numberLimit then
        some (Text.decimalNumber ds)
      else none

/-- A reference by name. -/
def namedReference (s : State) (opening closing : List Char) (relative : Bool) :
    Reading (Nat × State) :=
  match name? opening closing relative s.rest with
  | none => refuse .invalidGroupName s.index
  | some (name, len) =>
    match s.group? name with
    | none => refuse (.unknownGroupName name) s.index
    | some group => .ok (group, (s.refer group).skip len)

/-- A reference by number. -/
def numberedReference (s : State) : Reading (Nat × State) :=
  match decimal? s.rest with
  | some (group, len) =>
    if group < s.groupLimit then .ok (group, { (s.refer group).skip len with numbered := true })
    else refuse .invalidReference s.index
  | none => refuse .invalidReference s.index

end PatternAudit.Pcre
