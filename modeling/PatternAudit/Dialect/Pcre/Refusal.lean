/-
Why a backtracking engine refuses a pattern.

A pattern is refused while it is read, with an index, or while it is prepared for
matching, without one. Parts that need no backtracking are handed to an automaton
engine, whose refusals are told apart only by stage.
-/

set_option autoImplicit false

namespace PatternAudit.Pcre

/-- The cause of a refusal while reading. -/
inductive Refusal where
  | general (text : String)
  | unclosedParenthesis
  | nestedTooDeep
  | trailingBackslash
  | invalidEscape (text : String)
  | unclosedProperty
  | invalidHex
  | invalidCodePoint
  | invalidClass
  | unknownFlag (text : String)
  | unicodeOff
  | invalidReference
  | notRepeatable
  | invalidGroupName
  | unknownGroupName (name : String)
  deriving DecidableEq, Inhabited

/-- The wording of a refusal while reading. -/
def Refusal.message : Refusal → String
  | general text => "General parsing error: " ++ text
  | unclosedParenthesis => "Opening parenthesis without closing parenthesis"
  | nestedTooDeep => "Pattern too deeply nested"
  | trailingBackslash => "Backslash without following character"
  | invalidEscape text => "Invalid escape: " ++ text
  | unclosedProperty => "Unicode escape not closed"
  | invalidHex => "Invalid hex escape"
  | invalidCodePoint => "Invalid codepoint for hex or unicode escape"
  | invalidClass => "Invalid character class"
  | unknownFlag text => "Unknown group flag: (?" ++ text
  | unicodeOff => "Disabling Unicode not supported"
  | invalidReference => "Invalid back reference"
  | notRepeatable => "Target of repeat operator is invalid"
  | invalidGroupName => "Could not parse group name"
  | unknownGroupName name => "Invalid group name in back reference: " ++ name

/-- The cause of a refusal while preparing. -/
inductive Obstacle where
  /-- a reference to a group that is not opened before it -/
  | invalidReference
  /-- a reference by number in a pattern with named groups -/
  | numberedReference
  /-- a look-behind over texts of different lengths -/
  | lookBehindLength
  /-- a part that the automaton engine cannot read -/
  | unreadablePart
  /-- a part whose automaton is too large -/
  | partTooLarge
  deriving DecidableEq, Inhabited

/-- The wording of a refusal while preparing. -/
def Obstacle.message (o : Obstacle) : String :=
  "Error compiling regex: " ++ match o with
    | invalidReference => "Invalid back reference"
    | numberedReference =>
      "Numbered backref/call not allowed because named group was used, use a named backref instead"
    | lookBehindLength => "Look-behind assertion without constant size"
    | unreadablePart => "Regex error: error parsing pattern 0"
    | partTooLarge => "Regex error: error building NFA"

/-- Why a pattern is refused. -/
inductive Failure where
  | read (cause : Refusal) (index : Nat)
  | prepare (cause : Obstacle)
  deriving DecidableEq, Inhabited

/-- What reading gives, or why it fails. -/
abbrev Reading (α : Type) := Except Failure α

/-- Refuses at a byte of the pattern. -/
def refuse {α : Type} (cause : Refusal) (index : Nat) : Reading α := .error (.read cause index)

end PatternAudit.Pcre
